import Mathlib.Order.Lattice
import Mathlib.Data.List.TakeWhile
import Mathlib.Tactic.Common

/-!
# Ordered maps as strictly increasing association lists

The list of entries is the in-order traversal of a search tree. Iterators are
positions in that list: `lowerBound` and `upperBound` return the position of
the first entry at or after (strictly after) a key, and the length is the end
iterator. Erasing a half-open range of iterators is undefined when its two ends
are in the wrong order, so it returns an option.
-/
namespace AllocCounter

/-- A finite map whose entries are listed in strictly increasing key order. -/
structure SortedMap (K V : Type*) [LinearOrder K] where
  entries : List (K × V)
  sorted : entries.Pairwise fun a b => a.1 < b.1

namespace SortedMap
variable {K V : Type*} [LinearOrder K]

@[ext] theorem ext {m n : SortedMap K V} (h : m.entries = n.entries) : m = n := by
  cases m; cases n; simp_all

instance [DecidableEq V] : DecidableEq (SortedMap K V) := fun m n =>
  decidable_of_iff (m.entries = n.entries) ⟨ext, congrArg entries⟩

def empty : SortedMap K V := ⟨[], .nil⟩

@[simp] theorem entries_empty : (empty : SortedMap K V).entries = [] := rfl

/-- The value stored under a key. -/
def find? (m : SortedMap K V) (k : K) : Option V :=
  (m.entries.find? fun e => e.1 = k).map Prod.snd

/-- Position of the first entry whose key is not less than `k`. -/
def lowerBound (m : SortedMap K V) (k : K) : ℕ :=
  (m.entries.takeWhile fun e => e.1 < k).length

/-- Position of the first entry whose key is greater than `k`. -/
def upperBound (m : SortedMap K V) (k : K) : ℕ :=
  (m.entries.takeWhile fun e => e.1 ≤ k).length

/-- Place `(k, v)` in key order; `merge` decides what an equal key keeps. -/
def place (merge : V → V → V) (k : K) (v : V) : List (K × V) → List (K × V)
  | [] => [(k, v)]
  | e :: l =>
      if k < e.1 then (k, v) :: e :: l
      else if e.1 < k then e :: place merge k v l
      else (e.1, merge e.2 v) :: l

theorem mem_keys_place (merge : V → V → V) (k : K) (v : V) (l : List (K × V)) (x : K) :
    x ∈ (place merge k v l).map Prod.fst ↔ x = k ∨ x ∈ l.map Prod.fst := by
  induction l with
  | nil => simp [place]
  | cons f l ih =>
      unfold place
      split_ifs with h₁ h₂
      · rw [List.map_cons, List.mem_cons]
      · rw [List.map_cons, List.mem_cons, ih, List.map_cons, List.mem_cons, or_left_comm]
      · have hkey : f.1 = k := le_antisymm (not_lt.mp h₁) (not_lt.mp h₂)
        rw [List.map_cons, List.map_cons, List.mem_cons, ← hkey, or_self_left]

theorem place_sorted (merge : V → V → V) (k : K) (v : V) {l : List (K × V)}
    (hl : l.Pairwise fun a b => a.1 < b.1) :
    (place merge k v l).Pairwise fun a b => a.1 < b.1 := by
  induction l with
  | nil => simp [place]
  | cons f l ih =>
      have ⟨hf, hl'⟩ := List.pairwise_cons.mp hl
      unfold place
      split_ifs with h₁ h₂
      · refine List.pairwise_cons.mpr ⟨?_, hl⟩
        intro e he
        rcases List.mem_cons.mp he with rfl | he
        · exact h₁
        · exact h₁.trans (hf e he)
      · refine List.pairwise_cons.mpr ⟨?_, ih hl'⟩
        intro e he
        cases (mem_keys_place merge k v l e.1).mp (List.mem_map_of_mem he) with
        | inl h => exact h ▸ h₂
        | inr h =>
            obtain ⟨g, hg, hkey⟩ := List.mem_map.mp h
            exact hkey ▸ hf g hg
      · exact List.pairwise_cons.mpr ⟨hf, hl'⟩

/-- Insert unless the key is present, as `std::map::insert` does. -/
def insertNew (m : SortedMap K V) (k : K) (v : V) : SortedMap K V :=
  ⟨place (fun old _ => old) k v m.entries, place_sorted _ k v m.sorted⟩

/-- Insert or overwrite, as an indexed assignment does. -/
def set (m : SortedMap K V) (k : K) (v : V) : SortedMap K V :=
  ⟨place (fun _ new => new) k v m.entries, place_sorted _ k v m.sorted⟩

/-- A key strictly between two halves of the list lands between them. -/
theorem place_append (merge : V → V → V) (k : K) (v : V) {l r : List (K × V)}
    (hl : ∀ e ∈ l, e.1 < k) (hr : ∀ e ∈ r, k < e.1) :
    place merge k v (l ++ r) = l ++ (k, v) :: r := by
  induction l with
  | nil =>
      cases r with
      | nil => rfl
      | cons e r => simp [place, hr e]
  | cons e l ih =>
      have he : e.1 < k := hl e List.mem_cons_self
      simp only [List.cons_append, place, not_lt_of_gt he, if_false, he, if_true]
      rw [ih fun f hf => hl f (List.mem_cons_of_mem _ hf)]

/-- An occupied key keeps its place and merges its value. -/
theorem place_append_cons (merge : V → V → V) (k : K) (v old : V) {l r : List (K × V)}
    (hl : ∀ e ∈ l, e.1 < k) :
    place merge k v (l ++ (k, old) :: r) = l ++ (k, merge old v) :: r := by
  induction l with
  | nil => simp [place]
  | cons e l ih =>
      have he : e.1 < k := hl e List.mem_cons_self
      simp only [List.cons_append, place, not_lt_of_gt he, if_false, he, if_true]
      rw [ih fun f hf => hl f (List.mem_cons_of_mem _ hf)]

/-- Insertion that keeps old values loses no entry. -/
theorem mem_place_old {k : K} {v : V} {l : List (K × V)} {e : K × V} (he : e ∈ l) :
    e ∈ place (fun old _ => old) k v l := by
  induction l with
  | nil => simp at he
  | cons f l ih =>
      unfold place
      split_ifs
      · exact List.mem_cons_of_mem _ he
      · rcases List.mem_cons.mp he with rfl | he
        · exact List.mem_cons_self
        · exact List.mem_cons_of_mem _ (ih he)
      · exact he

/-- Insertion that keeps the old value or takes the new one adds at most the new
entry. -/
theorem eq_or_mem_of_mem_place {merge : V → V → V} {k : K} {v : V} {l : List (K × V)} {e : K × V}
    (hmerge : ∀ old, merge old v = old ∨ merge old v = v) (he : e ∈ place merge k v l) :
    e = (k, v) ∨ e ∈ l := by
  induction l with
  | nil => exact .inl (List.mem_singleton.mp he)
  | cons f l ih =>
      unfold place at he
      split_ifs at he with hlt hgt
      · exact List.mem_cons.mp he
      · rcases List.mem_cons.mp he with rfl | he
        · exact .inr List.mem_cons_self
        · exact (ih he).imp_right (List.mem_cons_of_mem _)
      · have hkey : f.1 = k := le_antisymm (not_lt.mp hlt) (not_lt.mp hgt)
        rcases List.mem_cons.mp he with rfl | he
        · cases hmerge f.2 with
          | inl hold =>
              rw [hold]
              exact .inr List.mem_cons_self
          | inr hnew => exact .inl (by rw [hkey, hnew])
        · exact .inr (List.mem_cons_of_mem _ he)

/-- Insertion that keeps old values does nothing, or the new entry takes a place
in the list. -/
theorem place_old_cases (k : K) (v : V) (l : List (K × V)) :
    (k ∈ l.map Prod.fst ∧ place (fun old _ => old) k v l = l) ∨
      ∃ l₁ l₂, l = l₁ ++ l₂ ∧ place (fun old _ => old) k v l = l₁ ++ (k, v) :: l₂ := by
  induction l with
  | nil => exact .inr ⟨[], [], rfl, rfl⟩
  | cons f l ih =>
      unfold place
      split_ifs with hlt hgt
      · exact .inr ⟨[], f :: l, rfl, rfl⟩
      · cases ih with
        | inl hsame => exact .inl ⟨List.mem_cons_of_mem _ hsame.1, by rw [hsame.2]⟩
        | inr hnew =>
            obtain ⟨l₁, l₂, rfl, hplace⟩ := hnew
            exact .inr ⟨f :: l₁, l₂, rfl, by rw [hplace]; rfl⟩
      · have hkey : f.1 = k := le_antisymm (not_lt.mp hlt) (not_lt.mp hgt)
        exact .inl ⟨by simp [hkey], rfl⟩

theorem set_entries (m : SortedMap K V) (k : K) (v : V) :
    (m.set k v).entries = place (fun _ new => new) k v m.entries := rfl

theorem insertNew_entries (m : SortedMap K V) (k : K) (v : V) :
    (m.insertNew k v).entries = place (fun old _ => old) k v m.entries := rfl

/-- The keys before an entry are smaller and the keys after it greater. -/
theorem keys_around {m : SortedMap K V} {k : K} {v : V} {l r : List (K × V)}
    (h : m.entries = l ++ (k, v) :: r) : (∀ e ∈ l, e.1 < k) ∧ ∀ e ∈ r, k < e.1 := by
  have hs := m.sorted
  rw [h, List.pairwise_append, List.pairwise_cons] at hs
  exact ⟨fun e he => hs.2.2 e he (k, v) List.mem_cons_self, hs.2.1.1⟩

theorem takeWhile_append_of_all {A : Type*} {p : A → Bool} {l r : List A}
    (hl : ∀ e ∈ l, p e = true) (hr : ∀ e ∈ r, p e = false) :
    (l ++ r).takeWhile p = l := by
  rw [List.takeWhile_append_of_pos hl]
  cases r with
  | nil => simp
  | cons e r => simp [hr e]

/-- A predicate that is downward closed along the keys cuts the entries into
the part where it holds and the part where it fails. -/
theorem exists_cut (m : SortedMap K V) (p : K → Prop) [DecidablePred p]
    (hp : ∀ a b, a < b → p b → p a) :
    ∃ l r, m.entries = l ++ r ∧ (∀ e ∈ l, p e.1) ∧ (∀ e ∈ r, ¬ p e.1) := by
  refine ⟨m.entries.takeWhile (fun e => p e.1), m.entries.dropWhile (fun e => p e.1),
    List.takeWhile_append_dropWhile.symm, ?_, ?_⟩
  · intro e he
    simpa using List.mem_takeWhile_imp he
  · have hs : (m.entries.dropWhile fun e => p e.1).Pairwise fun a b => a.1 < b.1 :=
      m.sorted.sublist (List.dropWhile_sublist _)
    have hh := List.head?_dropWhile_not (fun e : K × V => decide (p e.1)) m.entries
    intro e he hpe
    cases hd : m.entries.dropWhile fun e => p e.1 with
    | nil => simp [hd] at he
    | cons f r =>
        rw [hd] at he hs hh
        simp only [List.head?_cons, decide_eq_false_iff_not] at hh
        rcases List.mem_cons.mp he with rfl | he
        · simp_all
        · have := hp f.1 e.1 ((List.pairwise_cons.mp hs).1 e he) hpe
          simp_all

/-- The position where a property of the keys ends. -/
theorem length_takeWhile_eq {m : SortedMap K V} (p : K → Prop) [DecidablePred p]
    {l r : List (K × V)} (h : m.entries = l ++ r) (hl : ∀ e ∈ l, p e.1) (hr : ∀ e ∈ r, ¬ p e.1) :
    (m.entries.takeWhile fun e => p e.1).length = l.length := by
  rw [h, takeWhile_append_of_all]
  · simpa using hl
  · simpa using hr

theorem lowerBound_eq {m : SortedMap K V} {k : K} {l r : List (K × V)}
    (h : m.entries = l ++ r) (hl : ∀ e ∈ l, e.1 < k) (hr : ∀ e ∈ r, k ≤ e.1) :
    m.lowerBound k = l.length :=
  length_takeWhile_eq (· < k) h hl fun e he => not_lt.mpr (hr e he)

theorem upperBound_eq {m : SortedMap K V} {k : K} {l r : List (K × V)}
    (h : m.entries = l ++ r) (hl : ∀ e ∈ l, e.1 ≤ k) (hr : ∀ e ∈ r, k < e.1) :
    m.upperBound k = l.length :=
  length_takeWhile_eq (· ≤ k) h hl fun e he => not_le.mpr (hr e he)

theorem find?_append_cons {m : SortedMap K V} {k : K} {v : V} {l r : List (K × V)}
    (h : m.entries = l ++ (k, v) :: r) : m.find? k = some v := by
  have hl : l.find? (fun e => decide (e.1 = k)) = none := by
    simp only [List.find?_eq_none, decide_eq_true_eq]
    intro e he
    exact ((keys_around h).1 e he).ne
  simp [find?, h, List.find?_append, hl]

theorem find?_eq_some {m : SortedMap K V} {k : K} {v : V} :
    m.find? k = some v ↔ (k, v) ∈ m.entries := by
  constructor
  · intro h
    obtain ⟨e, he, rfl⟩ := Option.map_eq_some_iff.mp h
    have hk : e.1 = k := by simpa using List.find?_some he
    exact hk ▸ List.mem_of_find?_eq_some he
  · intro h
    obtain ⟨l, r, hlr⟩ := List.append_of_mem h
    exact find?_append_cons hlr

/-- A key has one entry. -/
theorem eq_of_key_eq {m : SortedMap K V} {e f : K × V} (he : e ∈ m.entries) (hf : f ∈ m.entries)
    (hkey : e.1 = f.1) : e = f := by
  have hfind := find?_eq_some.mpr (hkey ▸ he : (f.1, e.2) ∈ m.entries)
  rw [find?_eq_some.mpr hf] at hfind
  exact Prod.ext hkey (Option.some.inj hfind).symm

theorem filter_sorted (m : SortedMap K V) (p : K × V → Bool) :
    (m.entries.filter p).Pairwise fun a b => a.1 < b.1 :=
  m.sorted.sublist List.filter_sublist

/-- Remove one key. -/
def erase (m : SortedMap K V) (k : K) : SortedMap K V :=
  ⟨m.entries.filter fun e => e.1 ≠ k, m.filter_sorted _⟩

/-- Remove the entries at positions `first, ..., last - 1`. -/
def eraseRange (m : SortedMap K V) (first last : ℕ) : Option (SortedMap K V) :=
  if h : first ≤ last then
    some ⟨m.entries.take first ++ m.entries.drop last, by
      have hs := m.sorted
      rw [← List.take_append_drop first m.entries, List.pairwise_append] at hs
      refine List.pairwise_append.mpr ⟨hs.1, m.sorted.sublist (List.drop_sublist _ _), ?_⟩
      intro a ha b hb
      refine hs.2.2 a ha b ?_
      rw [← Nat.add_sub_cancel' h, ← List.drop_drop] at hb
      exact List.mem_of_mem_drop hb⟩
  else none

theorem eraseRange_of_le (m : SortedMap K V) {first last : ℕ} (h : first ≤ last) :
    ∃ m', m.eraseRange first last = some m' ∧
      m'.entries = m.entries.take first ++ m.entries.drop last :=
  ⟨_, dif_pos h, rfl⟩

theorem eraseRange_eq_some {m m' : SortedMap K V} {first last : ℕ}
    (h : m.eraseRange first last = some m') :
    first ≤ last ∧ m'.entries = m.entries.take first ++ m.entries.drop last := by
  unfold eraseRange at h
  split_ifs at h with hle
  rw [← Option.some.inj h]
  exact ⟨hle, rfl⟩

theorem mem_of_mem_eraseRange {m m' : SortedMap K V} {first last : ℕ}
    (h : m.eraseRange first last = some m') {e : K × V} (he : e ∈ m'.entries) : e ∈ m.entries := by
  rw [(eraseRange_eq_some h).2] at he
  exact (List.mem_append.mp he).elim List.mem_of_mem_take List.mem_of_mem_drop

/-- The keys in `[lo, hi)`, in order. -/
def keysBetween (m : SortedMap K V) (lo hi : K) : List K :=
  (m.entries.filter fun e => lo ≤ e.1 ∧ e.1 < hi).map Prod.fst

/-- Two keys in order cut the entries into those before, between and after. -/
theorem exists_cut_two (m : SortedMap K V) {lo hi : K} (h : lo ≤ hi) :
    ∃ l mid r, m.entries = l ++ mid ++ r ∧ (∀ e ∈ l, e.1 < lo) ∧
      (∀ e ∈ mid, lo ≤ e.1 ∧ e.1 < hi) ∧ (∀ e ∈ r, hi ≤ e.1) := by
  obtain ⟨l', r, hlr, hl', hr⟩ := m.exists_cut (· < hi) fun a b hab hb => hab.trans hb
  obtain ⟨l, r', hlr', hl, hr'⟩ := m.exists_cut (· < lo) fun a b hab hb => hab.trans hb
  have hpre : l <+: l' := by
    have hl_pre : l <+: m.entries := ⟨r', hlr'.symm⟩
    have hl'_pre : l' <+: m.entries := ⟨r, hlr.symm⟩
    rcases List.prefix_or_prefix_of_prefix hl_pre hl'_pre with hp | ⟨t, ht⟩
    · exact hp
    · cases t with
      | nil => exact ⟨[], by simpa using ht.symm⟩
      | cons e t =>
          have he : e ∈ l := by simp [← ht]
          have her : e ∈ r := by
            have : l' ++ (e :: t ++ r') = l' ++ r := by
              rw [← hlr, hlr', ← ht, List.append_assoc]
            rw [← List.append_cancel_left this]
            simp
          exact absurd ((hl e he).trans_le h) (hr e her)
  obtain ⟨mid, rfl⟩ := hpre
  refine ⟨l, mid, r, hlr, hl, ?_, fun e he => not_lt.mp (hr e he)⟩
  intro e he
  have her : e ∈ r' := by
    have : l ++ r' = l ++ (mid ++ r) := by rw [← hlr', hlr, List.append_assoc]
    rw [List.append_cancel_left this]
    exact List.mem_append_left _ he
  exact ⟨not_lt.mp (hr' e her), hl' e (List.mem_append_right _ he)⟩

/-- Filtering a list whose middle part is all that passes, and whose middle part is all
that does not. -/
theorem filter_parts {α : Type*} {p : α → Prop} [DecidablePred p] {l mid r : List α}
    (hl : ∀ a ∈ l, ¬ p a) (hm : ∀ a ∈ mid, p a) (hr : ∀ a ∈ r, ¬ p a) :
    (l ++ mid ++ r).filter (fun a => decide (p a)) = mid ∧
      (l ++ mid ++ r).filter (fun a => decide (¬ p a)) = l ++ r := by
  have hnone : ∀ {part : List α}, (∀ a ∈ part, ¬ p a) →
      part.filter (fun a => decide (p a)) = [] ∧ part.filter (fun a => decide (¬ p a)) = part :=
    fun h => by simpa [List.filter_eq_nil_iff, List.filter_eq_self] using h
  have hall : mid.filter (fun a => decide (p a)) = mid ∧
      mid.filter (fun a => decide (¬ p a)) = [] := by
    simpa [List.filter_eq_nil_iff, List.filter_eq_self] using hm
  simp only [List.filter_append, (hnone hl).1, (hnone hl).2, hall.1, hall.2, (hnone hr).1,
    (hnone hr).2, List.nil_append, List.append_nil, and_self]

/-- The entries with a key in `[lo, hi)`, and the others. -/
theorem filter_between {l mid r : List (K × V)} {lo hi : K}
    (hl : ∀ e ∈ l, e.1 < lo) (hm : ∀ e ∈ mid, lo ≤ e.1 ∧ e.1 < hi) (hr : ∀ e ∈ r, hi ≤ e.1) :
    (l ++ mid ++ r).filter (fun e => decide (lo ≤ e.1 ∧ e.1 < hi)) = mid ∧
      (l ++ mid ++ r).filter (fun e => decide (¬ (lo ≤ e.1 ∧ e.1 < hi))) = l ++ r :=
  filter_parts (fun e he h => absurd (hl e he) (not_lt.mpr h.1)) hm
    fun e he h => absurd h.2 (not_lt.mpr (hr e he))

/-- Both ends of a key range, as positions. -/
theorem lowerBound_cut {m : SortedMap K V} {lo hi : K} (h : lo ≤ hi) {l mid r : List (K × V)}
    (hs : m.entries = l ++ mid ++ r) (hl : ∀ e ∈ l, e.1 < lo)
    (hm : ∀ e ∈ mid, lo ≤ e.1 ∧ e.1 < hi) (hr : ∀ e ∈ r, hi ≤ e.1) :
    m.lowerBound lo = l.length ∧ m.lowerBound hi = (l ++ mid).length := by
  constructor
  · refine lowerBound_eq (r := mid ++ r) (by rw [hs, List.append_assoc]) hl ?_
    intro e he
    rcases List.mem_append.mp he with he | he
    · exact (hm e he).1
    · exact h.trans (hr e he)
  · refine lowerBound_eq hs ?_ hr
    intro e he
    rcases List.mem_append.mp he with he | he
    · exact (hl e he).trans_le h
    · exact (hm e he).2

/-- Erasing between two lower bounds removes exactly the keys in `[lo, hi)`. -/
theorem eraseRange_lowerBound (m : SortedMap K V) {lo hi : K} (h : lo ≤ hi) :
    m.eraseRange (m.lowerBound lo) (m.lowerBound hi) =
      some ⟨m.entries.filter fun e => ¬ (lo ≤ e.1 ∧ e.1 < hi), m.filter_sorted _⟩ := by
  obtain ⟨l, mid, r, hs, hl, hm, hr⟩ := m.exists_cut_two h
  obtain ⟨h₁, h₂⟩ := lowerBound_cut h hs hl hm hr
  have hle : l.length ≤ (l ++ mid).length := by simp
  unfold eraseRange
  simp only [h₁, h₂, hle, dite_true, Option.some.injEq]
  ext1
  simp only [hs, (filter_between hl hm hr).2]
  rw [List.append_assoc, List.take_left, ← List.append_assoc, List.drop_left]

theorem lowerBound_mono (m : SortedMap K V) {lo hi : K} (h : lo ≤ hi) :
    m.lowerBound lo ≤ m.lowerBound hi := by
  obtain ⟨l, mid, r, hs, hl, hm, hr⟩ := m.exists_cut_two h
  obtain ⟨h₁, h₂⟩ := lowerBound_cut h hs hl hm hr
  rw [h₁, h₂, List.length_append]
  exact Nat.le_add_right _ _

/-- Positions in order can only be the bounds of keys in order, or be equal. -/
theorem lowerBound_eq_of_eraseRange {m m' : SortedMap K V} {lo hi : K} (h : hi ≤ lo)
    (herase : m.eraseRange (m.lowerBound lo) (m.lowerBound hi) = some m') :
    m.lowerBound lo = m.lowerBound hi := by
  unfold eraseRange at herase
  split_ifs at herase with hle
  exact le_antisymm hle (m.lowerBound_mono h)

/-- The two lower bounds differ exactly when some key lies in `[lo, hi)`. -/
theorem lowerBound_ne_iff (m : SortedMap K V) {lo hi : K} (h : lo ≤ hi) :
    m.lowerBound lo ≠ m.lowerBound hi ↔ ∃ e ∈ m.entries, lo ≤ e.1 ∧ e.1 < hi := by
  obtain ⟨l, mid, r, hs, hl, hm, hr⟩ := m.exists_cut_two h
  obtain ⟨h₁, h₂⟩ := lowerBound_cut h hs hl hm hr
  rw [h₁, h₂, List.length_append, hs]
  cases mid with
  | nil =>
      simp only [List.length_nil, Nat.add_zero, ne_eq, not_true_eq_false, List.append_nil,
        List.mem_append, false_iff, not_exists, not_and, not_lt]
      rintro e (he | he) hlo
      · exact absurd (hl e he) (not_lt.mpr hlo)
      · exact hr e he
  | cons f mid =>
      have : l.length ≠ l.length + (f :: mid).length := by simp
      simp only [this, ne_eq, not_false_eq_true, true_iff]
      exact ⟨f, by simp, hm f List.mem_cons_self⟩

theorem isSome_find? {m : SortedMap K V} {k : K} :
    (m.find? k).isSome ↔ k ∈ m.entries.map Prod.fst := by
  rw [Option.isSome_iff_exists, List.mem_map]
  constructor
  · intro ⟨v, hv⟩
    exact ⟨(k, v), find?_eq_some.mp hv, rfl⟩
  · rintro ⟨e, he, rfl⟩
    exact ⟨e.2, find?_eq_some.mpr he⟩

/-- An insertion does nothing if the key is present, or it adds one entry. -/
theorem insertNew_cases (m : SortedMap K V) (k : K) (v : V) :
    (k ∈ m.entries.map Prod.fst ∧ m.insertNew k v = m) ∨
      k ∉ m.entries.map Prod.fst ∧ ∃ l₁ l₂, m.entries = l₁ ++ l₂ ∧
        (m.insertNew k v).entries = l₁ ++ (k, v) :: l₂ := by
  cases place_old_cases k v m.entries with
  | inl hsame => exact .inl ⟨hsame.1, ext hsame.2⟩
  | inr hnew =>
      obtain ⟨l₁, l₂, hm, hplace⟩ := hnew
      have ⟨hl₁, hl₂⟩ := keys_around (m := m.insertNew k v) hplace
      refine .inr ⟨?_, l₁, l₂, hm, hplace⟩
      rw [hm, List.map_append, List.mem_append, not_or]
      constructor
      · intro hk
        obtain ⟨e, he, rfl⟩ := List.mem_map.mp hk
        exact lt_irrefl _ (hl₁ e he)
      · intro hk
        obtain ⟨e, he, rfl⟩ := List.mem_map.mp hk
        exact lt_irrefl _ (hl₂ e he)

/-- The values removed one key at a time, and the map that is left. -/
def pop (m : SortedMap K V) : List K → Option (List V × SortedMap K V)
  | [] => some ([], m)
  | k :: ks =>
      match m.find? k with
      | none => none
      | some v => ((m.erase k).pop ks).map fun r => (v :: r.1, r.2)

theorem pop_append (mid : List (K × V)) : ∀ (m : SortedMap K V) (l r : List (K × V)),
    m.entries = l ++ mid ++ r →
    ∃ m', m.pop (mid.map Prod.fst) = some (mid.map Prod.snd, m') ∧ m'.entries = l ++ r := by
  induction mid with
  | nil => intro m l r h; exact ⟨m, rfl, by simpa using h⟩
  | cons e mid ih =>
      intro m l r h
      have hcons : m.entries = l ++ (e.1, e.2) :: (mid ++ r) := by simp [h]
      have hfind := find?_append_cons hcons
      have herase : (m.erase e.1).entries = l ++ mid ++ r := by
        have ⟨hbefore, hafter⟩ := keys_around hcons
        have hl : l.filter (fun f => decide (f.1 ≠ e.1)) = l := by
          simp only [List.filter_eq_self, decide_eq_true_eq]
          exact fun f hf => (hbefore f hf).ne
        have hr : (mid ++ r).filter (fun f => decide (f.1 ≠ e.1)) = mid ++ r := by
          simp only [List.filter_eq_self, decide_eq_true_eq]
          exact fun f hf => (hafter f hf).ne'
        simp only [erase, hcons, List.filter_append, List.filter_cons, hl]
        simp only [ne_eq, not_true_eq_false, decide_false, Bool.false_eq_true, if_false]
        rw [← List.filter_append]
        simpa [List.append_assoc] using hr
      obtain ⟨m', hpop, hm'⟩ := ih (m.erase e.1) l r herase
      exact ⟨m', by simp [pop, hfind, hpop], hm'⟩

/-- Popping the keys of `[lo, hi)` returns their values in key order and leaves
the other entries. -/
theorem pop_keysBetween (m : SortedMap K V) {lo hi : K} (h : lo ≤ hi) :
    m.pop (m.keysBetween lo hi) =
      some ((m.entries.filter fun e => lo ≤ e.1 ∧ e.1 < hi).map Prod.snd,
        ⟨m.entries.filter fun e => ¬ (lo ≤ e.1 ∧ e.1 < hi), m.filter_sorted _⟩) := by
  obtain ⟨l, mid, r, hs, hl, hm, hr⟩ := m.exists_cut_two h
  obtain ⟨m', hpop, hm'⟩ := pop_append mid m l r hs
  have hmid : (m.entries.filter fun e => lo ≤ e.1 ∧ e.1 < hi) = mid := by
    rw [hs]; exact (filter_between hl hm hr).1
  have hrest : (m.entries.filter fun e => ¬ (lo ≤ e.1 ∧ e.1 < hi)) = l ++ r := by
    rw [hs]; exact (filter_between hl hm hr).2
  unfold keysBetween
  rw [hmid, hpop]
  simp only [Option.some.injEq, Prod.mk.injEq, true_and]
  ext1
  rw [hm', ← hrest]

end SortedMap
end AllocCounter
