import Mathlib.Data.List.Induction
import Mathlib.Data.List.Nodup
import Mathlib.Data.Set.Function

/-!
# Numbering by first appearance

The elements of a list are numbered from one in the order in which they first
appear. Elements that come later change no number, and a function that is
injective on the list changes none either.
-/
namespace AllocCounter.FirstAppearances

variable {α β : Type*} [DecidableEq α] [DecidableEq β]

theorem eraseDups_concat (l : List α) (a : α) :
    (l ++ [a]).eraseDups = if a ∈ l then l.eraseDups else l.eraseDups ++ [a] := by
  rw [List.eraseDups_append]
  split_ifs with h <;> simp [List.removeAll, h, List.eraseDups_cons]

theorem nodup_eraseDups (l : List α) : l.eraseDups.Nodup := by
  induction l using List.reverseRecOn with
  | nil => simp
  | append_singleton l a ih =>
      rw [eraseDups_concat]
      split_ifs with h
      · exact ih
      · rw [← List.concat_eq_append]
        exact ih.concat fun hmem => h (List.mem_eraseDups.mp hmem)

/-- Distinct images: dropping repetitions commutes with the function. -/
theorem eraseDups_map {f : α → β} {l : List α} (hf : Set.InjOn f {a | a ∈ l}) :
    (l.map f).eraseDups = l.eraseDups.map f := by
  induction l using List.reverseRecOn with
  | nil => simp
  | append_singleton l a ih =>
      have hl : Set.InjOn f {a | a ∈ l} := hf.mono fun b hb => List.mem_append_left _ hb
      have hmem : f a ∈ l.map f ↔ a ∈ l := by
        constructor
        · intro h
          obtain ⟨b, hb, heq⟩ := List.mem_map.mp h
          exact hf (List.mem_append_left _ hb) (List.mem_append_right _ (List.mem_singleton_self a))
            heq ▸ hb
        · exact List.mem_map_of_mem
      rw [List.map_append, List.map_singleton, eraseDups_concat, eraseDups_concat, ih hl]
      simp only [hmem]
      split_ifs
      · rfl
      · rw [List.map_append, List.map_singleton]

omit [DecidableEq α] [DecidableEq β] in
theorem eq_of_map_eq {f : α → β} {s : Set α} (hf : Set.InjOn f s) {l l' : List α}
    (hl : ∀ a ∈ l, a ∈ s) (hl' : ∀ a ∈ l', a ∈ s) (h : l.map f = l'.map f) : l = l' := by
  induction l generalizing l' with
  | nil => exact (List.map_eq_nil_iff.mp h.symm).symm
  | cons a l ih =>
      cases l' with
      | nil => exact nomatch h
      | cons a' l' =>
          obtain ⟨hhead, htail⟩ := List.cons.inj h
          rw [hf (hl a List.mem_cons_self) (hl' a' List.mem_cons_self) hhead,
            ih (fun b hb => hl b (List.mem_cons_of_mem _ hb))
              (fun b hb => hl' b (List.mem_cons_of_mem _ hb)) htail]

/-- The elements whose image has not come before. -/
def firstsBy (f : α → β) (l : List α) : List α :=
  l.foldl (fun firsts a => if f a ∈ firsts.map f then firsts else firsts ++ [a]) []

omit [DecidableEq α] in
theorem map_firstsBy (f : α → β) (l : List α) : (firstsBy f l).map f = (l.map f).eraseDups := by
  induction l using List.reverseRecOn with
  | nil => rfl
  | append_singleton l a ih =>
      rw [firstsBy, List.foldl_concat, ← firstsBy, ih, List.map_append, List.map_singleton,
        eraseDups_concat]
      simp only [List.mem_eraseDups]
      split_ifs with h
      · exact ih
      · rw [List.map_append, ih, List.map_singleton]

omit [DecidableEq α] in
theorem firstsBy_concat (f : α → β) (l : List α) (a : α) : firstsBy f (l ++ [a]) =
    if f a ∈ l.map f then firstsBy f l else firstsBy f l ++ [a] := by
  rw [firstsBy, List.foldl_concat, ← firstsBy, map_firstsBy]
  simp only [List.mem_eraseDups]

omit [DecidableEq α] in
theorem length_firstsBy (f : α → β) (l : List α) :
    (firstsBy f l).length = (l.map f).eraseDups.length := by
  rw [← map_firstsBy, List.length_map]

omit [DecidableEq α] in
theorem mem_of_mem_firstsBy {f : α → β} {l : List α} {a : α} (h : a ∈ firstsBy f l) : a ∈ l := by
  induction l using List.reverseRecOn with
  | nil => cases h
  | append_singleton l b ih =>
      rw [firstsBy_concat] at h
      split_ifs at h
      · exact List.mem_append_left _ (ih h)
      · cases List.mem_append.mp h with
        | inl hold => exact List.mem_append_left _ (ih hold)
        | inr hnew => exact List.mem_append_right _ hnew

/-- With distinct images these are the elements themselves. -/
theorem firstsBy_eq_eraseDups {f : α → β} {l : List α} (hf : Set.InjOn f {a | a ∈ l}) :
    firstsBy f l = l.eraseDups := by
  apply eq_of_map_eq hf fun a ha => mem_of_mem_firstsBy ha
  · exact fun a ha => List.mem_eraseDups.mp ha
  · rw [map_firstsBy, eraseDups_map hf]

/-- The number of an element. -/
def rank (l : List α) (a : α) : ℕ := l.eraseDups.idxOf a + 1

theorem rank_append {l : List α} {a : α} (h : a ∈ l) (r : List α) :
    rank (l ++ r) a = rank l a := by
  rw [rank, List.eraseDups_append, List.idxOf_append_of_mem (List.mem_eraseDups.mpr h), rank]

/-- A new element gets the next number. -/
theorem rank_concat_self {l : List α} {a : α} (h : a ∉ l) :
    rank (l ++ [a]) a = l.eraseDups.length + 1 := by
  rw [rank, eraseDups_concat, if_neg h,
    List.idxOf_append_of_notMem fun hmem => h (List.mem_eraseDups.mp hmem)]
  simp

theorem rank_inj {l : List α} {a b : α} (ha : a ∈ l) : rank l a = rank l b ↔ a = b := by
  rw [rank, rank, Nat.add_right_cancel_iff]
  exact List.idxOf_inj (List.mem_eraseDups.mpr ha)

/-- An element is found under its number. -/
theorem lookup_rank {l : List α} {a : α} (h : a ∈ l) :
    ((l.eraseDups.zipIdx 1).map Prod.swap).lookup (rank l a) = some a := by
  have hnumbered : ∀ (m : List α) (n : ℕ), a ∈ m →
      ((m.zipIdx n).map Prod.swap).lookup (m.idxOf a + n) = some a := by
    intro m
    induction m with
    | nil => exact fun n hm => absurd hm List.not_mem_nil
    | cons b m ih =>
        intro n hm
        rw [List.zipIdx_cons, List.map_cons, Prod.swap_prod_mk, List.lookup_cons]
        by_cases hab : b = a
        · simp [hab]
        · have hmem : a ∈ m := (List.mem_cons.mp hm).resolve_left fun heq => hab heq.symm
          have hne : (m.idxOf a + 1 + n == n) = false := by
            rw [beq_eq_false_iff_ne]
            omega
          have hshift : m.idxOf a + 1 + n = m.idxOf a + (n + 1) := by omega
          rw [List.idxOf_cons_ne m hab, hne, hshift]
          exact ih (n + 1) hmem
  exact hnumbered l.eraseDups 1 (List.mem_eraseDups.mpr h)

theorem rank_map {f : α → β} {l : List α} (hf : Set.InjOn f {a | a ∈ l}) {a : α} (ha : a ∈ l) :
    rank (l.map f) (f a) = rank l a := by
  have hmem := List.mem_eraseDups.mpr ha
  have hlt := List.idxOf_lt_length_iff.mpr hmem
  rw [rank, rank, eraseDups_map hf, Nat.add_right_cancel_iff]
  have hnodup : (l.eraseDups.map f).Nodup :=
    (nodup_eraseDups l).map_on fun x hx y hy =>
      hf (List.mem_eraseDups.mp hx) (List.mem_eraseDups.mp hy)
  have hget : (l.eraseDups.map f).get ⟨l.eraseDups.idxOf a, by simpa using hlt⟩ = f a := by simp
  rw [← hget, List.get_eq_getElem, hnodup.idxOf_getElem]

end AllocCounter.FirstAppearances
