import Mathlib.Data.List.Sort

/-!
# Sorting by a comparison

A sorting function of the C++ kind takes a comparison and promises something only
if this is a strict weak ordering of the elements it is given. Insertion sort
keeps the promise, and a comparison with `≥` meets the condition on the empty
list only.
-/
namespace AllocCounter

variable {α : Type*}

/-- The comparison is a strict weak ordering of the elements of a list. -/
structure StrictWeakOn (lt : α → α → Bool) (l : List α) : Prop where
  irrefl : ∀ a ∈ l, lt a a = false
  asymm : ∀ a ∈ l, ∀ b ∈ l, lt a b = true → lt b a = false
  trans : ∀ a ∈ l, ∀ b ∈ l, ∀ c ∈ l, lt a b = true → lt b c = true → lt a c = true
  incomparable : ∀ a ∈ l, ∀ b ∈ l, ∀ c ∈ l, lt a b = false ∧ lt b a = false →
    lt b c = false ∧ lt c b = false → lt a c = false ∧ lt c a = false

/-- Under a strict weak ordering the result is a permutation in which no element
comes after a greater one. Otherwise nothing is promised. -/
def Sorts (sort : (α → α → Bool) → List α → List α) : Prop :=
  ∀ lt l, StrictWeakOn lt l → (sort lt l).Perm l ∧ (sort lt l).Pairwise fun a b => lt b a = false

variable {lt : α → α → Bool} {l : List α}

theorem StrictWeakOn.subset (h : StrictWeakOn lt l) {r : List α} (hr : r ⊆ l) :
    StrictWeakOn lt r where
  irrefl a ha := h.irrefl a (hr ha)
  asymm a ha b hb := h.asymm a (hr ha) b (hr hb)
  trans a ha b hb c hc := h.trans a (hr ha) b (hr hb) c (hr hc)
  incomparable a ha b hb c hc := h.incomparable a (hr ha) b (hr hb) c (hr hc)

/-- Not being greater is transitive. -/
theorem StrictWeakOn.not_gt_trans (h : StrictWeakOn lt l) {a b c : α} (ha : a ∈ l) (hb : b ∈ l)
    (hc : c ∈ l) (hab : lt b a = false) (hbc : lt c b = false) : lt c a = false := by
  rw [Bool.eq_false_iff]
  intro hca
  by_cases h₁ : lt a b = true
  · exact absurd (h.trans c hc a ha b hb hca h₁) (by simp [hbc])
  by_cases h₂ : lt b c = true
  · exact absurd (h.trans b hb c hc a ha h₂ hca) (by simp [hab])
  · have hboth := h.incomparable a ha b hb c hc ⟨Bool.eq_false_iff.mpr h₁, hab⟩
      ⟨Bool.eq_false_iff.mpr h₂, hbc⟩
    exact absurd hca (by simp [hboth.2])

theorem StrictWeakOn.orderedInsert {a : α} (h : StrictWeakOn lt (a :: l))
    (hl : l.Pairwise fun b c => lt c b = false) :
    (l.orderedInsert (fun b c => lt c b = false) a).Pairwise fun b c => lt c b = false := by
  induction l with
  | nil => simp
  | cons b l ih =>
      obtain ⟨hb, hrest⟩ := List.pairwise_cons.mp hl
      rw [List.orderedInsert_cons]
      split_ifs with hab
      · refine List.pairwise_cons.mpr ⟨fun c hc => ?_, hl⟩
        rcases List.mem_cons.mp hc with rfl | hc
        · exact hab
        · exact h.not_gt_trans (by simp) (by simp) (by simp [hc]) hab (hb c hc)
      · refine List.pairwise_cons.mpr ⟨fun c hc => ?_, ih (h.subset ?_) hrest⟩
        · rcases List.mem_cons.mp ((List.perm_orderedInsert _ a l).mem_iff.mp hc) with rfl | hc
          · exact h.asymm b (by simp) c (by simp) (by simpa using hab)
          · exact hb c hc
        · intro c hc
          rcases List.mem_cons.mp hc with rfl | hc
          · exact List.mem_cons_self
          · exact List.mem_cons_of_mem _ (List.mem_cons_of_mem _ hc)

theorem sorts_insertionSort :
    Sorts fun (lt : α → α → Bool) l => l.insertionSort fun a b => lt b a = false := by
  intro lt l h
  refine ⟨List.perm_insertionSort _ l, ?_⟩
  induction l with
  | nil => simp
  | cons a l ih =>
      have hinsert : StrictWeakOn lt (a :: l.insertionSort fun b c => lt c b = false) :=
        h.subset (List.cons_subset_cons a (List.perm_insertionSort _ l).subset)
      exact hinsert.orderedInsert (ih (h.subset (List.subset_cons_self a l)))

/-- A comparison that accepts equal elements is strict on no element. -/
theorem strictWeakOn_ge_iff {β : Type*} [LinearOrder β] (key : α → β) :
    StrictWeakOn (fun a b => decide (key a ≥ key b)) l ↔ l = [] := by
  constructor
  · intro h
    refine List.eq_nil_iff_forall_not_mem.mpr fun a ha => ?_
    simpa using h.irrefl a ha
  · rintro rfl
    constructor <;> simp

end AllocCounter
