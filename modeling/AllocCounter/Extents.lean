import AllocCounter.SortedMap
import Mathlib.Order.Lattice
import Mathlib.Algebra.Order.Ring.Int
import Mathlib.Algebra.BigOperators.Group.List.Basic
import Mathlib.Tactic.Common
import Mathlib.Tactic.Order

/-!
# Owned half-open ranges

An extent is a range `[start, stop)` with an owner. A list of extents is tiled
when its members are nonempty and each ends before the later ones start; it then
denotes a partial function from points to owners. Splitting at a point and
cutting out a range act on each member separately, so every fact about a whole
list follows from one about a single extent.
-/
namespace AllocCounter

structure Extent (K A : Type*) where
  start : K
  stop : K
  owner : A
deriving DecidableEq

namespace Extent
variable {K A : Type*} [LinearOrder K]

def Covers (e : Extent K A) (x : K) : Prop := e.start ≤ x ∧ x < e.stop

instance (e : Extent K A) (x : K) : Decidable (e.Covers x) :=
  inferInstanceAs (Decidable (_ ∧ _))

/-- Nonempty members, each ending before the later ones start. -/
def Tiled (l : List (Extent K A)) : Prop :=
  (∀ e ∈ l, e.start < e.stop) ∧ l.Pairwise fun e f => e.stop ≤ f.start

/-- The owner of a point: the owner of the first extent that covers it. -/
def ownerOf (l : List (Extent K A)) (x : K) : Option A :=
  (l.find? fun e => e.Covers x).map owner

theorem Tiled.nil : Tiled ([] : List (Extent K A)) := ⟨by simp, .nil⟩

theorem Tiled.append {l r : List (Extent K A)} (hl : Tiled l) (hr : Tiled r)
    (h : ∀ e ∈ l, ∀ f ∈ r, e.stop ≤ f.start) : Tiled (l ++ r) := by
  refine ⟨?_, List.pairwise_append.mpr ⟨hl.2, hr.2, h⟩⟩
  intro e he
  rcases List.mem_append.mp he with he | he
  · exact hl.1 e he
  · exact hr.1 e he

theorem Tiled.sublist {l r : List (Extent K A)} (hr : Tiled r) (h : l.Sublist r) : Tiled l :=
  ⟨fun e he => hr.1 e (h.subset he), hr.2.sublist h⟩

theorem tiled_cons {e : Extent K A} {l : List (Extent K A)} :
    Tiled (e :: l) ↔ e.start < e.stop ∧ (∀ f ∈ l, e.stop ≤ f.start) ∧ Tiled l := by
  simp only [Tiled, List.mem_cons, forall_eq_or_imp, List.pairwise_cons]
  tauto

theorem tiled_append {l r : List (Extent K A)} :
    Tiled (l ++ r) ↔ Tiled l ∧ Tiled r ∧ ∀ e ∈ l, ∀ f ∈ r, e.stop ≤ f.start := by
  constructor
  · intro h
    exact ⟨h.sublist (List.sublist_append_left _ _), h.sublist (List.sublist_append_right _ _),
      (List.pairwise_append.mp h.2).2.2⟩
  · rintro ⟨hl, hr, h⟩
    exact hl.append hr h

theorem ownerOf_cons (e : Extent K A) (l : List (Extent K A)) (x : K) :
    ownerOf (e :: l) x = if e.Covers x then some e.owner else ownerOf l x := by
  unfold ownerOf
  split_ifs with h <;> simp [h]

theorem ownerOf_append (l r : List (Extent K A)) (x : K) :
    ownerOf (l ++ r) x = (ownerOf l x).or (ownerOf r x) := by
  induction l with
  | nil => simp [ownerOf]
  | cons e l ih =>
      simp only [List.cons_append, ownerOf_cons, ih]
      split_ifs <;> rfl

theorem ownerOf_eq_none {l : List (Extent K A)} {x : K} :
    ownerOf l x = none ↔ ∀ e ∈ l, ¬ e.Covers x := by
  simp [ownerOf]

theorem exists_of_ownerOf {l : List (Extent K A)} {x : K} {a : A} (h : ownerOf l x = some a) :
    ∃ e ∈ l, e.Covers x ∧ e.owner = a := by
  obtain ⟨e, he, rfl⟩ := Option.map_eq_some_iff.mp h
  exact ⟨e, List.mem_of_find?_eq_some he, by simpa using List.find?_some he, rfl⟩

/-- No two members of a tiled list cover one point. -/
theorem Tiled.ownerOf_of_mem {l : List (Extent K A)} (hl : Tiled l) {e : Extent K A} (he : e ∈ l)
    {x : K} (hx : e.Covers x) : ownerOf l x = some e.owner := by
  induction l with
  | nil => simp at he
  | cons f l ih =>
      obtain ⟨-, hfl, hl'⟩ := tiled_cons.mp hl
      rw [ownerOf_cons]
      rcases List.mem_cons.mp he with rfl | he
      · rw [if_pos hx]
      · have hn : ¬ f.Covers x := fun h => absurd ((hfl e he).trans hx.1) (not_le.mpr h.2)
        rw [if_neg hn, ih hl' he]

theorem Tiled.ownerOf_eq_some {l : List (Extent K A)} (hl : Tiled l) {x : K} {a : A} :
    ownerOf l x = some a ↔ ∃ e ∈ l, e.Covers x ∧ e.owner = a := by
  constructor
  · exact exists_of_ownerOf
  · rintro ⟨e, he, hx, rfl⟩
    exact hl.ownerOf_of_mem he hx

/-- The pieces are tiled, stay inside the extent and keep its owner. -/
structure Pieces (e : Extent K A) (l : List (Extent K A)) : Prop where
  tiled : Tiled l
  inside : ∀ f ∈ l, e.start ≤ f.start ∧ f.stop ≤ e.stop
  owner : ∀ f ∈ l, f.owner = e.owner

theorem Tiled.flatMap {l : List (Extent K A)} (hl : Tiled l)
    {g : Extent K A → List (Extent K A)} (hg : ∀ e ∈ l, Pieces e (g e)) : Tiled (l.flatMap g) := by
  induction l with
  | nil => exact .nil
  | cons e l ih =>
      obtain ⟨-, hel, hl'⟩ := tiled_cons.mp hl
      rw [List.flatMap_cons]
      refine (hg e List.mem_cons_self).tiled.append
        (ih hl' fun f hf => hg f (List.mem_cons_of_mem _ hf)) ?_
      intro p hp q hq
      obtain ⟨f, hf, hqf⟩ := List.mem_flatMap.mp hq
      have h₁ := ((hg e List.mem_cons_self).inside p hp).2
      have h₂ := ((hg f (List.mem_cons_of_mem _ hf)).inside q hqf).1
      exact h₁.trans ((hel f hf).trans h₂)

/-- If the pieces of each extent are what it covers inside `S`, the pieced list
is the restriction of the ownership function to `S`. -/
theorem Tiled.ownerOf_flatMap {l : List (Extent K A)} (hl : Tiled l)
    {g : Extent K A → List (Extent K A)} (hg : ∀ e ∈ l, Pieces e (g e)) (S : K → Prop)
    [DecidablePred S] (hS : ∀ e ∈ l, ∀ x, (∃ p ∈ g e, p.Covers x) ↔ e.Covers x ∧ S x) (x : K) :
    ownerOf (l.flatMap g) x = if S x then ownerOf l x else none := by
  have ht := hl.flatMap hg
  split_ifs with hx
  · ext a
    rw [ht.ownerOf_eq_some, hl.ownerOf_eq_some]
    constructor
    · rintro ⟨p, hp, hpx, rfl⟩
      obtain ⟨e, he, hpe⟩ := List.mem_flatMap.mp hp
      exact ⟨e, he, ((hS e he x).mp ⟨p, hpe, hpx⟩).1, ((hg e he).owner p hpe).symm⟩
    · rintro ⟨e, he, hex, rfl⟩
      obtain ⟨p, hp, hpx⟩ := (hS e he x).mpr ⟨hex, hx⟩
      exact ⟨p, List.mem_flatMap.mpr ⟨e, he, hp⟩, hpx, (hg e he).owner p hp⟩
  · rw [ownerOf_eq_none]
    intro p hp hpx
    obtain ⟨e, he, hpe⟩ := List.mem_flatMap.mp hp
    exact hx ((hS e he x).mp ⟨p, hpe, hpx⟩).2

def splitAt (p : K) (e : Extent K A) : List (Extent K A) :=
  if e.start < p ∧ p < e.stop then [{ e with stop := p }, { e with start := p }] else [e]

theorem splitAt_of_le {p : K} {e : Extent K A} (h : p ≤ e.start ∨ e.stop ≤ p) :
    e.splitAt p = [e] := by
  unfold splitAt
  rw [if_neg]
  rintro ⟨h₁, h₂⟩
  rcases h with h | h <;> order

theorem pieces_splitAt (p : K) {e : Extent K A} (he : e.start < e.stop) :
    Pieces e (e.splitAt p) := by
  unfold splitAt
  split_ifs with h
  · refine ⟨⟨?_, ?_⟩, ?_, ?_⟩
    · simpa using h
    · simp
    · simpa using ⟨h.2.le, h.1.le⟩
    · simp
  · refine ⟨⟨?_, ?_⟩, ?_, ?_⟩ <;> simp [he]

theorem flatMap_splitAt_of_le {p : K} {l : List (Extent K A)}
    (h : ∀ e ∈ l, p ≤ e.start ∨ e.stop ≤ p) : l.flatMap (splitAt p) = l := by
  rw [List.flatMap_congr fun e he => splitAt_of_le (h e he), List.flatMap_singleton']

/-- Only a member that contains the point strictly inside is split. -/
theorem flatMap_splitAt_append_cons {p : K} {l r : List (Extent K A)} (e : Extent K A)
    (hl : ∀ f ∈ l, f.stop ≤ p) (hr : ∀ f ∈ r, p ≤ f.start) :
    (l ++ e :: r).flatMap (splitAt p) = l ++ e.splitAt p ++ r := by
  rw [List.flatMap_append, List.flatMap_cons, flatMap_splitAt_of_le fun f hf => .inr (hl f hf),
    flatMap_splitAt_of_le fun f hf => .inl (hr f hf), List.append_assoc]

/-- What an extent has below `lo`. -/
def before (lo : K) (e : Extent K A) : List (Extent K A) :=
  if e.start < min e.stop lo then [{ e with stop := min e.stop lo }] else []

/-- What an extent has from `hi` on. -/
def after (hi : K) (e : Extent K A) : List (Extent K A) :=
  if max e.start hi < e.stop then [{ e with start := max e.start hi }] else []

/-- What remains of an extent outside `[lo, hi)`. -/
def outside (lo hi : K) (e : Extent K A) : List (Extent K A) := e.before lo ++ e.after hi

/-- What an extent has inside `[lo, hi)`. -/
def inside (lo hi : K) (e : Extent K A) : List (Extent K A) :=
  if max e.start lo < min e.stop hi then
    [{ start := max e.start lo, stop := min e.stop hi, owner := e.owner }] else []

theorem mem_before {lo : K} {e p : Extent K A} :
    p ∈ e.before lo ↔ e.start < min e.stop lo ∧ p = { e with stop := min e.stop lo } := by
  unfold before
  split_ifs with h <;> simp [h]

theorem mem_after {hi : K} {e p : Extent K A} :
    p ∈ e.after hi ↔ max e.start hi < e.stop ∧ p = { e with start := max e.start hi } := by
  unfold after
  split_ifs with h <;> simp [h]

theorem mem_inside {lo hi : K} {e p : Extent K A} :
    p ∈ e.inside lo hi ↔ max e.start lo < min e.stop hi ∧
      p = { start := max e.start lo, stop := min e.stop hi, owner := e.owner } := by
  unfold inside
  split_ifs with h <;> simp [h]

theorem pieces_before (lo : K) (e : Extent K A) : Pieces e (e.before lo) := by
  unfold before
  split_ifs with h <;> refine ⟨⟨?_, ?_⟩, ?_, ?_⟩ <;> simp_all

theorem pieces_after (hi : K) (e : Extent K A) : Pieces e (e.after hi) := by
  unfold after
  split_ifs with h <;> refine ⟨⟨?_, ?_⟩, ?_, ?_⟩ <;> simp_all

theorem pieces_inside (lo hi : K) (e : Extent K A) : Pieces e (e.inside lo hi) := by
  unfold inside
  split_ifs with h <;> refine ⟨⟨?_, ?_⟩, ?_, ?_⟩ <;> simp_all

theorem pieces_outside {lo hi : K} (h : lo ≤ hi) (e : Extent K A) :
    Pieces e (e.outside lo hi) where
  tiled := by
    refine (pieces_before lo e).tiled.append (pieces_after hi e).tiled ?_
    intro p hp q hq
    obtain ⟨-, rfl⟩ := mem_before.mp hp
    obtain ⟨-, rfl⟩ := mem_after.mp hq
    exact (min_le_right _ _).trans (h.trans (le_max_right _ _))
  inside := fun p hp => (List.mem_append.mp hp).elim
    ((pieces_before lo e).inside p) ((pieces_after hi e).inside p)
  owner := fun p hp => (List.mem_append.mp hp).elim
    ((pieces_before lo e).owner p) ((pieces_after hi e).owner p)

theorem covers_before (lo : K) (e : Extent K A) (x : K) :
    (∃ p ∈ e.before lo, p.Covers x) ↔ e.Covers x ∧ x < lo := by
  simp only [mem_before, Covers]
  constructor
  · rintro ⟨p, ⟨-, rfl⟩, h₁, h₂⟩
    exact ⟨⟨h₁, (lt_min_iff.mp h₂).1⟩, (lt_min_iff.mp h₂).2⟩
  · rintro ⟨⟨h₁, h₂⟩, hx⟩
    exact ⟨_, ⟨h₁.trans_lt (lt_min h₂ hx), rfl⟩, h₁, lt_min h₂ hx⟩

theorem covers_after (hi : K) (e : Extent K A) (x : K) :
    (∃ p ∈ e.after hi, p.Covers x) ↔ e.Covers x ∧ hi ≤ x := by
  simp only [mem_after, Covers]
  constructor
  · rintro ⟨p, ⟨-, rfl⟩, h₁, h₂⟩
    exact ⟨⟨(max_le_iff.mp h₁).1, h₂⟩, (max_le_iff.mp h₁).2⟩
  · rintro ⟨⟨h₁, h₂⟩, hx⟩
    exact ⟨_, ⟨(max_le h₁ hx).trans_lt h₂, rfl⟩, max_le h₁ hx, h₂⟩

theorem covers_inside (lo hi : K) (e : Extent K A) (x : K) :
    (∃ p ∈ e.inside lo hi, p.Covers x) ↔ e.Covers x ∧ (lo ≤ x ∧ x < hi) := by
  simp only [mem_inside, Covers]
  constructor
  · rintro ⟨p, ⟨-, rfl⟩, h₁, h₂⟩
    simp only [max_le_iff, lt_min_iff] at h₁ h₂
    exact ⟨⟨h₁.1, h₂.1⟩, h₁.2, h₂.2⟩
  · rintro ⟨⟨h₁, h₂⟩, hlo, hhi⟩
    exact ⟨_, ⟨(max_le h₁ hlo).trans_lt (lt_min h₂ hhi), rfl⟩, max_le h₁ hlo, lt_min h₂ hhi⟩

theorem covers_outside (lo hi : K) (e : Extent K A) (x : K) :
    (∃ p ∈ e.outside lo hi, p.Covers x) ↔ e.Covers x ∧ ¬ (lo ≤ x ∧ x < hi) := by
  have hb := covers_before lo e x
  have ha := covers_after hi e x
  simp only [outside, List.mem_append, or_and_right, exists_or, hb, ha, not_and_or, not_le, not_lt,
    ← and_or_left]

/-- Splitting at both ends of a range leaves the parts before, inside and after. -/
theorem splitAt_splitAt {lo hi : K} (h : lo ≤ hi) {e : Extent K A} (he : e.start < e.stop) :
    (e.splitAt lo).flatMap (splitAt hi) = e.before lo ++ e.inside lo hi ++ e.after hi := by
  rcases e with ⟨s, t, a⟩
  simp only at he
  -- where each end of the range falls: before the extent, strictly inside it, or after it
  rcases lt_or_ge s lo with h₁ | h₁ <;> rcases lt_or_ge lo t with h₂ | h₂ <;>
    rcases lt_or_ge s hi with h₃ | h₃ <;> rcases lt_or_ge hi t with h₄ | h₄ <;>
    simp only [before, inside, after, splitAt, min_def, max_def, *, and_self, and_true, and_false,
      if_true, if_false, List.flatMap_cons, List.flatMap_nil, List.append_nil, not_le_of_gt,
      not_lt_of_ge] <;> grind

/-- The parts that start in the range are those inside it, the others those outside. -/
theorem filter_split {lo hi : K} (h : lo ≤ hi) {e : Extent K A} (he : e.start < e.stop) :
    ((e.splitAt lo).flatMap (splitAt hi)).filter (fun p => decide (lo ≤ p.start ∧ p.start < hi))
        = e.inside lo hi ∧
      ((e.splitAt lo).flatMap (splitAt hi)).filter
          (fun p => decide (¬ (lo ≤ p.start ∧ p.start < hi))) = e.outside lo hi := by
  rw [splitAt_splitAt h he]
  apply SortedMap.filter_parts
  · rintro p hp ⟨hlo, -⟩
    obtain ⟨hc, rfl⟩ := mem_before.mp hp
    exact absurd (hc.trans_le (min_le_right _ _)) (not_lt.mpr hlo)
  · intro p hp
    obtain ⟨hc, rfl⟩ := mem_inside.mp hp
    exact ⟨le_max_right _ _, hc.trans_le (min_le_right _ _)⟩
  · rintro p hp ⟨-, hhi⟩
    obtain ⟨-, rfl⟩ := mem_after.mp hp
    exact absurd hhi (not_lt.mpr (le_max_right _ _))

/-- What remains of a list outside `[lo, hi)`. -/
def cut (lo hi : K) (l : List (Extent K A)) : List (Extent K A) := l.flatMap (outside lo hi)

/-- What a list has inside `[lo, hi)`. -/
def cutOff (lo hi : K) (l : List (Extent K A)) : List (Extent K A) := l.flatMap (inside lo hi)

variable {l : List (Extent K A)}

theorem Tiled.splitAt (hl : Tiled l) (p : K) : Tiled (l.flatMap (splitAt p)) :=
  hl.flatMap fun e he => pieces_splitAt p (hl.1 e he)

theorem Tiled.cutOff (hl : Tiled l) (lo hi : K) : Tiled (cutOff lo hi l) :=
  hl.flatMap fun e _ => pieces_inside lo hi e

theorem Tiled.ownerOf_cut (hl : Tiled l) {lo hi : K} (h : lo ≤ hi) (x : K) :
    ownerOf (Extent.cut lo hi l) x = if lo ≤ x ∧ x < hi then none else ownerOf l x := by
  have hc := hl.ownerOf_flatMap (fun e _ => pieces_outside h e) (fun x => ¬ (lo ≤ x ∧ x < hi))
    (fun e _ x => covers_outside lo hi e x) x
  rw [Extent.cut, hc, ite_not]

theorem Tiled.ownerOf_cutOff (hl : Tiled l) (lo hi x : K) :
    ownerOf (Extent.cutOff lo hi l) x = if lo ≤ x ∧ x < hi then ownerOf l x else none :=
  hl.ownerOf_flatMap (fun e _ => pieces_inside lo hi e) (fun x => lo ≤ x ∧ x < hi)
    (fun e _ x => covers_inside lo hi e x) x

/-- Two splits followed by dropping the starts in `[lo, hi)` are one cut. -/
theorem Tiled.filter_splitAt_splitAt (hl : Tiled l) {lo hi : K} (h : lo ≤ hi) :
    ((l.flatMap (Extent.splitAt lo)).flatMap (Extent.splitAt hi)).filter
        (fun p => decide (¬ (lo ≤ p.start ∧ p.start < hi))) = Extent.cut lo hi l ∧
      ((l.flatMap (Extent.splitAt lo)).flatMap (Extent.splitAt hi)).filter
        (fun p => decide (lo ≤ p.start ∧ p.start < hi)) = Extent.cutOff lo hi l := by
  rw [List.flatMap_assoc, List.filter_flatMap, List.filter_flatMap]
  constructor
  · exact List.flatMap_congr fun e he => (filter_split h (hl.1 e he)).2
  · exact List.flatMap_congr fun e he => (filter_split h (hl.1 e he)).1

/-- A cut that meets no member changes nothing. -/
theorem Tiled.cut_of_disjoint (hl : Tiled l) {lo hi : K} (h : lo < hi)
    (hd : Extent.cutOff lo hi l = []) : Extent.cut lo hi l = l := by
  have hall : ∀ e ∈ l, e.outside lo hi = [e] := by
    intro e he
    have hn := (hl.1 e he)
    have hi' : e.inside lo hi = [] := List.flatMap_eq_nil_iff.mp hd e he
    unfold inside at hi'
    rcases e with ⟨s, t, a⟩
    unfold outside before after
    grind
  rw [Extent.cut, List.flatMap_congr hall, List.flatMap_singleton']

/-- Nothing is cut off exactly a range without owners. -/
theorem Tiled.cutOff_eq_nil (hl : Tiled l) {lo hi : K} :
    Extent.cutOff lo hi l = [] ↔ ∀ x, lo ≤ x → x < hi → ownerOf l x = none := by
  have ht := hl.cutOff lo hi
  constructor
  · intro h x hlo hhi
    have howner := hl.ownerOf_cutOff lo hi x
    rw [h, if_pos ⟨hlo, hhi⟩] at howner
    rw [← howner]
    rfl
  · intro h
    refine List.eq_nil_iff_forall_not_mem.mpr fun p hp => ?_
    have hcov : p.Covers p.start := ⟨le_rfl, ht.1 p hp⟩
    have howner := ht.ownerOf_of_mem hp hcov
    rw [hl.ownerOf_cutOff] at howner
    split_ifs at howner with hx
    rw [h _ hx.1 hx.2] at howner
    cases howner

/-- Add an extent after those that start before it. -/
def insert (e : Extent K A) (l : List (Extent K A)) : List (Extent K A) :=
  l.filter (fun f => f.start < e.start) ++ e :: l.filter fun f => ¬ f.start < e.start

section Gap

variable {e : Extent K A} {l r : List (Extent K A)} (he : e.start < e.stop)
  (hl : ∀ f ∈ l, f.stop ≤ e.start) (hr : ∀ f ∈ r, e.stop ≤ f.start)

include hl hr in
theorem Tiled.append_cons (h : Tiled (l ++ r)) (he : e.start < e.stop) : Tiled (l ++ e :: r) := by
  rw [tiled_append] at h
  rw [tiled_append, tiled_cons]
  refine ⟨h.1, ⟨he, hr, h.2.1⟩, ?_⟩
  intro a ha b hb
  rcases List.mem_cons.mp hb with rfl | hb
  · exact hl a ha
  · exact h.2.2 a ha b hb

include he hl hr in
theorem insert_append (h : Tiled (l ++ r)) : insert e (l ++ r) = l ++ e :: r := by
  have hfl : ∀ f ∈ l, f.start < e.start := fun f hf =>
    (h.1 f (List.mem_append_left r hf)).trans_le (hl f hf)
  have hfr : ∀ f ∈ r, ¬ f.start < e.start := fun f hf => (he.trans_le (hr f hf)).not_gt
  have hleft : (l ++ r).filter (fun f => f.start < e.start) = l := by
    rw [List.filter_append, List.filter_eq_self.mpr (by simpa using hfl),
      List.filter_eq_nil_iff.mpr (by simpa using hfr), List.append_nil]
  have hright : (l ++ r).filter (fun f => ¬ f.start < e.start) = r := by
    rw [List.filter_append, List.filter_eq_nil_iff.mpr (by simpa using hfl),
      List.filter_eq_self.mpr (by simpa using hfr), List.nil_append]
  rw [insert, hleft, hright]

include hl in
theorem ownerOf_append_cons (x : K) :
    ownerOf (l ++ e :: r) x = if e.Covers x then some e.owner else ownerOf (l ++ r) x := by
  rw [ownerOf_append, ownerOf_append, ownerOf_cons]
  split_ifs with hx
  · have hnone : ownerOf l x = none := by
      rw [ownerOf_eq_none]
      intro f hf hfx
      exact absurd (hfx.2.trans_le (hl f hf)) (not_lt.mpr hx.1)
    rw [hnone, Option.none_or]
  · rfl

end Gap

variable {B : Type*} (f : A → B)

def mapOwner (e : Extent K A) : Extent K B := ⟨e.start, e.stop, f e.owner⟩

theorem inside_mapOwner (lo hi : K) (e : Extent K A) :
    (e.mapOwner f).inside lo hi = (e.inside lo hi).map (mapOwner f) := by
  unfold inside
  rw [apply_ite (List.map (mapOwner f))]
  rfl

theorem outside_mapOwner (lo hi : K) (e : Extent K A) :
    (e.mapOwner f).outside lo hi = (e.outside lo hi).map (mapOwner f) := by
  unfold outside before after
  rw [List.map_append, apply_ite (List.map (mapOwner f)), apply_ite (List.map (mapOwner f))]
  rfl

theorem cut_map (lo hi : K) (l : List (Extent K A)) :
    cut lo hi (l.map (mapOwner f)) = (cut lo hi l).map (mapOwner f) := by
  simp only [cut, List.flatMap_map, List.map_flatMap, outside_mapOwner]

theorem cutOff_map (lo hi : K) (l : List (Extent K A)) :
    cutOff lo hi (l.map (mapOwner f)) = (cutOff lo hi l).map (mapOwner f) := by
  simp only [cutOff, List.flatMap_map, List.map_flatMap, inside_mapOwner]

theorem insert_map (e : Extent K A) (l : List (Extent K A)) :
    insert (e.mapOwner f) (l.map (mapOwner f)) = (insert e l).map (mapOwner f) := by
  simp only [insert, List.filter_map, List.map_append, List.map_cons]
  rfl

theorem ownerOf_map (l : List (Extent K A)) (x : K) :
    ownerOf (l.map (mapOwner f)) x = (ownerOf l x).map f := by
  induction l with
  | nil => rfl
  | cons e l ih =>
      rw [List.map_cons, ownerOf_cons, ownerOf_cons, ih, apply_ite (Option.map f)]
      rfl

/-- Tiled extents inside `[lo, hi]` are together no longer than it. -/
theorem Tiled.sum_length_le {A : Type*} {l : List (Extent ℤ A)} (hl : Tiled l) :
    ∀ lo hi : ℤ, lo ≤ hi → (∀ e ∈ l, lo ≤ e.start ∧ e.stop ≤ hi) →
      (l.map fun e => e.stop - e.start).sum ≤ hi - lo := by
  induction l with
  | nil =>
      intro lo hi h _
      simpa using h
  | cons e l ih =>
      intro lo hi h hin
      obtain ⟨he, hel, hl'⟩ := tiled_cons.mp hl
      have hb := hin e List.mem_cons_self
      have hrest := ih hl' e.stop hi hb.2 fun f hf => ⟨hel f hf, (hin f (List.mem_cons_of_mem _ hf)).2⟩
      simp only [List.map_cons, List.sum_cons]
      omega

/-- Each member is replaced by pieces of itself. -/
def Shrinks (l l' : List (Extent K A)) : Prop :=
  ∃ g, (∀ e ∈ l, Pieces e (g e)) ∧ l' = l.flatMap g

theorem pieces_self {e : Extent K A} (he : e.start < e.stop) : Pieces e [e] :=
  ⟨⟨by simpa, by simp⟩, by simp, by simp⟩

theorem Shrinks.refl (hl : Tiled l) : Shrinks l l :=
  ⟨fun e => [e], fun e he => pieces_self (hl.1 e he), (List.flatMap_singleton' l).symm⟩

theorem Shrinks.splitAt (hl : Tiled l) (p : K) : Shrinks l (l.flatMap (Extent.splitAt p)) :=
  ⟨_, fun e he => pieces_splitAt p (hl.1 e he), rfl⟩

theorem Shrinks.filter (hl : Tiled l) (q : Extent K A → Bool) : Shrinks l (l.filter q) := by
  refine ⟨fun e => if q e then [e] else [], ?_, ?_⟩
  · intro e he
    dsimp only
    split_ifs
    · exact pieces_self (hl.1 e he)
    · exact ⟨.nil, by simp, by simp⟩
  · induction l with
    | nil => rfl
    | cons e l ih =>
        rw [List.filter_cons, List.flatMap_cons, ← ih (tiled_cons.mp hl).2.2]
        split_ifs <;> rfl

variable {l' l'' : List (Extent K A)}

theorem Shrinks.tiled (h : Shrinks l l') (hl : Tiled l) : Tiled l' := by
  obtain ⟨g, hg, rfl⟩ := h
  exact hl.flatMap hg

theorem Shrinks.inside (h : Shrinks l l') {p : Extent K A} (hp : p ∈ l') :
    ∃ e ∈ l, e.start ≤ p.start ∧ p.stop ≤ e.stop := by
  obtain ⟨g, hg, rfl⟩ := h
  obtain ⟨e, he, hpe⟩ := List.mem_flatMap.mp hp
  exact ⟨e, he, (hg e he).inside p hpe⟩

theorem Shrinks.trans (h : Shrinks l l') (h' : Shrinks l' l'') : Shrinks l l'' := by
  obtain ⟨g, hg, rfl⟩ := h
  obtain ⟨g', hg', rfl⟩ := h'
  refine ⟨fun e => (g e).flatMap g', fun e he => ?_, List.flatMap_assoc⟩
  have hpieces : ∀ f ∈ g e, Pieces f (g' f) := fun f hf =>
    hg' f (List.mem_flatMap.mpr ⟨e, he, hf⟩)
  refine ⟨(hg e he).tiled.flatMap hpieces, ?_, ?_⟩
  · intro p hp
    obtain ⟨f, hf, hpf⟩ := List.mem_flatMap.mp hp
    have hin := (hg e he).inside f hf
    have hin' := (hpieces f hf).inside p hpf
    exact ⟨hin.1.trans hin'.1, hin'.2.trans hin.2⟩
  · intro p hp
    obtain ⟨f, hf, hpf⟩ := List.mem_flatMap.mp hp
    exact ((hpieces f hf).owner p hpf).trans ((hg e he).owner f hf)

/-- Pieces are together no longer than what they are pieces of. -/
theorem Shrinks.sum_length_le {A : Type*} {l l' : List (Extent ℤ A)} (hl : Tiled l)
    (h : Shrinks l l') :
    (l'.map fun e => e.stop - e.start).sum ≤ (l.map fun e => e.stop - e.start).sum := by
  obtain ⟨g, hg, rfl⟩ := h
  induction l with
  | nil => simp
  | cons e l ih =>
      obtain ⟨he, -, hl'⟩ := tiled_cons.mp hl
      have hpieces := hg e List.mem_cons_self
      have hhead := hpieces.tiled.sum_length_le e.start e.stop he.le hpieces.inside
      have htail := ih hl' fun f hf => hg f (List.mem_cons_of_mem _ hf)
      rw [List.flatMap_cons, List.map_append, List.sum_append, List.map_cons, List.sum_cons]
      exact add_le_add hhead htail

theorem cutOff_inside {lo hi : K} {p : Extent K A} (hp : p ∈ Extent.cutOff lo hi l) :
    lo ≤ p.start ∧ p.stop ≤ hi := by
  obtain ⟨e, -, he⟩ := List.mem_flatMap.mp hp
  obtain ⟨-, rfl⟩ := mem_inside.mp he
  exact ⟨le_max_right _ _, min_le_right _ _⟩

end Extent
end AllocCounter
