import AllocCounter.Extents
import Mathlib.Data.Int.Interval
import Mathlib.Data.Int.ConditionallyCompleteOrder
import Mathlib.Data.Set.Card
import Mathlib.Order.CompletePartialOrder
import Mathlib.Tactic.Linarith

/-!
# Counting owned points

An ownership function gives some integers an owner. The points whose owner
passes a test are counted: from a tiled list of extents by adding up lengths, and
along a change that overwrites one range by what the range had before.
-/
namespace AllocCounter.Extent

variable {A : Type*}

/-- The points whose owner passes the test. -/
def selected (test : A → Bool) (owner : ℤ → Option A) : Set ℤ :=
  {x | ∃ a, owner x = some a ∧ test a}

theorem ncard_Ico {lo hi : ℤ} (h : lo ≤ hi) : ((Set.Ico lo hi).ncard : ℤ) = hi - lo := by
  rw [← Finset.coe_Ico, Set.ncard_coe_finset, Int.card_Ico_of_le _ _ h]

theorem selected_cons (test : A → Bool) {e : Extent ℤ A} {l : List (Extent ℤ A)} (h : Tiled (e :: l)) :
    selected test (ownerOf (e :: l)) =
      (if test e.owner then Set.Ico e.start e.stop else ∅) ∪ selected test (ownerOf l) ∧
    Disjoint (if test e.owner then Set.Ico e.start e.stop else ∅)
      (selected test (ownerOf l)) := by
  obtain ⟨-, hel, -⟩ := tiled_cons.mp h
  -- a point of the first extent has no owner in the rest
  have hnone : ∀ x, e.Covers x → ownerOf l x = none := by
    intro x hx
    rw [ownerOf_eq_none]
    intro f hf hfx
    exact absurd ((hel f hf).trans hfx.1) (not_le.mpr hx.2)
  constructor
  · ext x
    simp only [selected, ownerOf_cons, Set.mem_union, Set.mem_ofPred_eq]
    by_cases hx : e.Covers x
    · have hmem : x ∈ Set.Ico e.start e.stop := hx
      split_ifs with htest <;> simp [hnone x hx, htest, hmem]
    · have hmem : x ∉ Set.Ico e.start e.stop := hx
      split_ifs with htest <;> simp [hmem]
  · rw [Set.disjoint_left]
    intro x hx ⟨a, ha, _⟩
    split_ifs at hx
    · rw [hnone x hx] at ha
      cases ha
    · exact hx

/-- The selected points of a tiled list are as many as the lengths of the extents
with selected owners add up to. -/
theorem Tiled.ncard_selected {l : List (Extent ℤ A)} (hl : Tiled l) (test : A → Bool) :
    (selected test (ownerOf l)).Finite ∧ ((selected test (ownerOf l)).ncard : ℤ) =
      ((l.filter fun e => test e.owner).map fun e => e.stop - e.start).sum := by
  induction l with
  | nil =>
      have hnil : selected test (ownerOf ([] : List (Extent ℤ A))) = ∅ := by
        ext x
        simp [selected, ownerOf]
      simp [hnil]
  | cons e l ih =>
      obtain ⟨he, -, hl'⟩ := tiled_cons.mp hl
      obtain ⟨hfinite, hcount⟩ := ih hl'
      obtain ⟨hunion, hdisjoint⟩ := selected_cons test hl
      have hico := Set.finite_Ico e.start e.stop
      rw [hunion]
      split_ifs at hdisjoint ⊢ with htest
      · refine ⟨hico.union hfinite, ?_⟩
        rw [Set.ncard_union_eq hdisjoint hico hfinite, Nat.cast_add, ncard_Ico he.le, hcount,
          List.filter_cons, if_pos htest, List.map_cons, List.sum_cons]
      · rw [Set.empty_union, List.filter_cons, if_neg htest]
        exact ⟨hfinite, hcount⟩

/-- Overwriting a range takes away what was selected there and adds the whole
range if the new owner is selected. -/
theorem ncard_selected_overwrite (test : A → Bool) {owner owner' taken : ℤ → Option A} {lo hi : ℤ} (h : lo ≤ hi)
    {new : Option A} (hfinite : (selected test owner).Finite)
    (howner : ∀ x, owner' x = if lo ≤ x ∧ x < hi then new else owner x)
    (htaken : ∀ x, taken x = if lo ≤ x ∧ x < hi then owner x else none) :
    (selected test owner').Finite ∧ ((selected test owner').ncard : ℤ) =
      (selected test owner).ncard - (selected test taken).ncard +
        (if new.any test then hi - lo else 0) := by
  have hinter : selected test taken = selected test owner ∩ Set.Ico lo hi := by
    ext x
    simp only [selected, htaken, Set.mem_inter_iff, Set.mem_ofPred_eq, Set.mem_Ico]
    split_ifs with hx <;> simp [hx]
  have hunion : selected test owner' = selected test owner \ Set.Ico lo hi ∪
      (if new.any test then Set.Ico lo hi else ∅) := by
    ext x
    simp only [selected, howner, Set.mem_union, Set.mem_sdiff, Set.mem_ofPred_eq, Set.mem_Ico]
    split_ifs with hx hnew hnew
    · simpa [hx, Option.any_eq_true] using hnew
    · simpa [hx, Option.any_eq_true] using hnew
    · simp [hx]
    · simp [hx]
  have hdisjoint : Disjoint (selected test owner \ Set.Ico lo hi)
      (if new.any test then Set.Ico lo hi else ∅) := by
    split_ifs
    · exact disjoint_sdiff_self_left
    · exact Set.disjoint_empty _
  have hnew : (if new.any test then Set.Ico lo hi else ∅).Finite ∧
      ((if new.any test then Set.Ico lo hi else ∅ : Set ℤ).ncard : ℤ) =
        if new.any test then hi - lo else 0 := by
    split_ifs
    · exact ⟨Set.finite_Ico lo hi, ncard_Ico h⟩
    · exact ⟨Set.finite_empty, by simp⟩
  have hsplit := Set.ncard_inter_add_ncard_sdiff_eq_ncard (selected test owner) (Set.Ico lo hi)
    hfinite
  rw [← hinter] at hsplit
  rw [hunion]
  refine ⟨hfinite.sdiff.union hnew.1, ?_⟩
  rw [Set.ncard_union_eq hdisjoint hfinite.sdiff hnew.1, Nat.cast_add, hnew.2]
  omega

end AllocCounter.Extent
