import AllocCounter.RangeCuts
import AllocCounter.ExactUnmapping
import AllocCounter.MemoryLog

/-!
# The order of unmappings

A program may give back its memory in one call or page by page, in any order and
with ranges that overlap. Neither of the two memory maps can tell: after
unmappings of the same addresses the slices are the same.
-/
namespace AllocCounter

/-- The ends of ranges that are given by start and size. -/
def endsOf (ranges : List (ℤ × ℕ)) : List (ℤ × ℤ) := ranges.map fun r => (r.1, r.1 + r.2)

/-- The two lists of ranges have the same addresses. -/
def SameAddresses (ranges ranges' : List (ℤ × ℕ)) : Prop :=
  ∀ x, Extent.InRanges (endsOf ranges) x ↔ Extent.InRanges (endsOf ranges') x

theorem lt_of_mem_endsOf {ranges : List (ℤ × ℕ)} (h : ∀ r ∈ ranges, 0 < r.2) :
    ∀ r ∈ endsOf ranges, r.1 < r.2 := by
  refine List.forall_mem_map.mpr fun r hr => ?_
  have hpos := h r hr
  dsimp only
  omega

theorem cuts_endsOf_concat {A : Type*} (ranges : List (ℤ × ℕ)) (range : ℤ × ℕ)
    (l : List (Extent ℤ A)) : Extent.cuts (endsOf (ranges ++ [range])) l =
      Extent.cut range.1 (range.1 + range.2) (Extent.cuts (endsOf ranges) l) := by
  rw [endsOf, List.map_append, List.map_singleton, Extent.cuts_concat]
  rfl

namespace Extent

variable {A : Type*} {l : List (Extent ℤ A)}

/-- What several cuts leave of the ownership. -/
theorem Tiled.cuts (hl : Tiled l) {ranges : List (ℤ × ℕ)} (h : ∀ r ∈ ranges, 0 < r.2) :
    Tiled (cuts (endsOf ranges) l) ∧ ∀ x, ownerOf (Extent.cuts (endsOf ranges) l) x = none ↔
      InRanges (endsOf ranges) x ∨ ownerOf l x = none := by
  induction ranges using List.reverseRecOn with
  | nil => exact ⟨hl, fun x => by simp [endsOf, Extent.cuts, InRanges]⟩
  | append_singleton ranges range ih =>
      obtain ⟨htiled, howner⟩ := ih fun r hr => h r (List.mem_append_left _ hr)
      have hle : range.1 ≤ range.1 + range.2 := by omega
      rw [cuts_endsOf_concat]
      refine ⟨htiled.flatMap fun e _ => pieces_outside hle e, fun x => ?_⟩
      have hin : InRanges (endsOf (ranges ++ [range])) x ↔
          InRanges (endsOf ranges) x ∨ range.1 ≤ x ∧ x < range.1 + range.2 := by
        simp [InRanges, endsOf, or_and_right, exists_or]
      rw [htiled.ownerOf_cut hle, hin]
      split_ifs with hx
      · simp [hx]
      · rw [howner]
        simp [hx]

end Extent

namespace MmapCounter.MemoryMap

variable {T : Type*} {t : Target} {m : MemoryMap T}

/-- Unmap one range after the other, and collect the answers. -/
def unmapAll (t : Target) (m : MemoryMap T) (ranges : List (ℤ × ℕ)) :
    Option (List Bool × MemoryMap T) :=
  ranges.foldlM (fun s r => (s.2.registerUnmap t r.1 r.2).map fun (known, m') =>
    (s.1 ++ [known], m')) ([], m)

theorem unmapAll_spec (hm : m.WellFormed t) {ranges : List (ℤ × ℕ)}
    (hranges : ∀ r ∈ ranges, 0 < r.2 ∧ Representable t r.1 r.2) :
    ∃ answers m', unmapAll t m ranges = some (answers, m') ∧ m'.WellFormed t ∧
      m'.made = m.made ∧ m'.extents = Extent.cuts (endsOf ranges) m.extents ∧
      (true ∈ answers ↔ ∃ x, Extent.InRanges (endsOf ranges) x ∧ m.owner x ≠ none) := by
  induction ranges using List.reverseRecOn with
  | nil => exact ⟨[], m, rfl, hm, rfl, rfl, by simp [Extent.InRanges, endsOf]⟩
  | append_singleton ranges range ih =>
      have hbefore : ∀ r ∈ ranges, 0 < r.2 ∧ Representable t r.1 r.2 := fun r hr =>
        hranges r (List.mem_append_left _ hr)
      obtain ⟨hpos, hrange⟩ := hranges range (List.mem_append_right _ List.mem_cons_self)
      obtain ⟨answers, m₁, hrun, hm₁, hmade₁, hext₁, hanswers⟩ := ih hbefore
      obtain ⟨known, m₂, hunmap, hm₂, hmade₂, hext₂, hknown⟩ :=
        registerUnmap_spec hm₁ range.1 range.2 hpos hrange
      refine ⟨answers ++ [known], m₂, ?_, hm₂, hmade₂.trans hmade₁, ?_, ?_⟩
      · rw [unmapAll, List.foldlM_append, ← unmapAll, hrun]
        simp [hunmap]
      · rw [hext₂, hext₁, cuts_endsOf_concat]
      · -- what the last range touches was not unmapped before
        obtain ⟨-, howner⟩ := hm.tiled.cuts fun r hr => (hbefore r hr).1
        have hlast : known = true ↔ ∃ x, (range.1 ≤ x ∧ x < range.1 + range.2) ∧
            ¬ (Extent.InRanges (endsOf ranges) x ∨ m.owner x = none) := by
          rw [hknown, ne_eq, hm₁.tiled.cutOff_eq_nil, hext₁]
          simp only [howner, owner, not_forall, exists_prop, and_assoc]
        have hin : ∀ x, Extent.InRanges (endsOf (ranges ++ [range])) x ↔
            Extent.InRanges (endsOf ranges) x ∨ range.1 ≤ x ∧ x < range.1 + range.2 := by
          simp [Extent.InRanges, endsOf, or_and_right, exists_or]
        rw [List.mem_append, List.mem_singleton, eq_comm (a := true), hanswers, hlast,
          ← exists_or]
        simp only [hin]
        refine exists_congr fun x => ?_
        by_cases hx : Extent.InRanges (endsOf ranges) x <;> simp [hx]

/-- A well-formed map is its extents and its counter. -/
theorem WellFormed.eq_of_extents {m' : MemoryMap T} (hm : m.WellFormed t) (hm' : m'.WellFormed t)
    (hmade : m.made = m'.made) (h : m.extents = m'.extents) : m = m' := by
  have hentries : m.slices.entries = m'.slices.entries := by
    rw [hm.entries_eq, hm'.entries_eq, h]
  cases m
  cases m'
  obtain rfl := hmade
  congr
  exact SortedMap.ext hentries

/-- Unmappings of the same addresses leave the same map, and they are found to
touch known memory or not. -/
theorem unmapAll_order (hm : m.WellFormed t) {ranges ranges' : List (ℤ × ℕ)}
    (hranges : ∀ r ∈ ranges, 0 < r.2 ∧ Representable t r.1 r.2)
    (hranges' : ∀ r ∈ ranges', 0 < r.2 ∧ Representable t r.1 r.2)
    (hsame : SameAddresses ranges ranges') :
    ∃ answers answers' m', unmapAll t m ranges = some (answers, m') ∧
      unmapAll t m ranges' = some (answers', m') ∧ (true ∈ answers ↔ true ∈ answers') := by
  obtain ⟨answers, m₁, hrun, hm₁, hmade, hext, hanswers⟩ := unmapAll_spec hm hranges
  obtain ⟨answers', m₂, hrun', hm₂, hmade', hext', hanswers'⟩ := unmapAll_spec hm hranges'
  have hcuts : m₁.extents = m₂.extents := by
    rw [hext, hext']
    exact Extent.cuts_eq_of_points (lt_of_mem_endsOf fun r hr => (hranges r hr).1)
      (lt_of_mem_endsOf fun r hr => (hranges' r hr).1) hsame hm.tiled.1
  obtain rfl := hm₁.eq_of_extents hm₂ (hmade.trans hmade'.symm) hcuts
  refine ⟨answers, answers', m₁, hrun, hrun', ?_⟩
  rw [hanswers, hanswers']
  exact exists_congr fun x => and_congr_left' (hsame x)

/-- Two pages at once, or the second page and then both. -/
theorem unmapAll_order_twoMappings :
    ∃ answers answers' m', unmapAll .lp64 twoMappings [(8192, 8192)] = some (answers, m') ∧
      unmapAll .lp64 twoMappings [(12288, 4096), (8192, 8192)] = some (answers', m') ∧
      (true ∈ answers ↔ true ∈ answers') := by
  refine unmapAll_order wellFormed_twoMappings ?_ ?_ fun x => ?_
  · simp [Representable, Target.intptrMin, Target.intptrMax, Target.bits]
  · simp [Representable, Target.intptrMin, Target.intptrMax, Target.bits]
  · simp only [Extent.InRanges, endsOf, List.map_cons, List.map_nil, List.mem_cons,
      List.not_mem_nil, or_false, exists_eq_or_imp, exists_eq_left]
    omega

end MmapCounter.MemoryMap

namespace ParseMmapLog.MemoryMap

variable {m : MemoryMap ℕ}

/-- Unmap one range after the other, and collect the erased slices. -/
def unmapAll (m : MemoryMap ℕ) (ranges : List (ℤ × ℕ)) :
    Option (List (MemorySlice ℕ) × MemoryMap ℕ) :=
  ranges.foldlM (fun s r => (s.2.registerUnmap r.1 r.2).map fun (erasedSlices, m') =>
    (s.1 ++ erasedSlices, m')) ([], m)

/-- The sizes of the slices that pass the filter. -/
def selectedSize (stackFilter : ℕ → Bool) (m : MemoryMap ℕ) : ℤ :=
  filteredSize stackFilter (m.dict.entries.map Prod.snd)

theorem filteredSize_append (stackFilter : ℕ → Bool) (l r : List (MemorySlice ℕ)) :
    filteredSize stackFilter (l ++ r) = filteredSize stackFilter l + filteredSize stackFilter r := by
  rw [filteredSize, List.filter_append, List.map_append, List.sum_append, filteredSize,
    filteredSize]

/-- The erased slices are what the map loses. -/
theorem registerUnmap_sizes (hm : m.WellFormed) (start : ℤ) {size : ℕ} (hsize : 0 < size) :
    ∃ erased m', m.registerUnmap start size = some (erased, m') ∧
      m'.WellFormed ∧ m'.extents = Extent.cut start (start + size) m.extents ∧
      ∀ stackFilter, filteredSize stackFilter erased =
        selectedSize stackFilter m - selectedSize stackFilter m' := by
  have hpos : (0 : ℤ) < size := by exact_mod_cast hsize
  obtain ⟨erased, m', hunmap, hm', hext, herased⟩ := registerUnmap_spec hm start hpos
  refine ⟨erased, m', hunmap, hm', hext, fun stackFilter => ?_⟩
  have htotal : ∀ n : MemoryMap ℕ, n.WellFormed →
      ((Extent.selected (fun a => stackFilter a.stackTraceId) n.owner).Finite ∧
        ((Extent.selected (fun a => stackFilter a.stackTraceId) n.owner).ncard : ℤ) =
          selectedSize stackFilter n) := by
    intro n hn
    obtain ⟨hfinite, hcount⟩ := hn.tiled.ncard_selected fun a => stackFilter a.stackTraceId
    refine ⟨hfinite, hcount.trans ?_⟩
    rw [selectedSize, filteredSize_eq, List.map_map]
    rfl
  have howner : ∀ x, m'.owner x =
      if start ≤ x ∧ x < start + size then none else m.owner x := by
    intro x
    rw [owner, hext, hm.tiled.ownerOf_cut (by omega)]
    rfl
  obtain ⟨-, hcount⟩ := Extent.ncard_selected_overwrite
    (fun a : MMapAllocation ℕ => stackFilter a.stackTraceId) (by omega) (htotal m hm).1 howner
    (hm.tiled.ownerOf_cutOff start (start + size))
  have htaken := ((hm.tiled.cutOff start (start + size)).ncard_selected
    fun a => stackFilter a.stackTraceId).2
  rw [← herased, ← filteredSize_eq] at htaken
  rw [← herased, htaken, (htotal m hm).2, (htotal m' hm').2] at hcount
  simp only [Option.any_none, Bool.false_eq_true, if_false, add_zero] at hcount
  omega

theorem unmapAll_spec (hm : m.WellFormed) {ranges : List (ℤ × ℕ)}
    (hranges : ∀ r ∈ ranges, 0 < r.2) :
    ∃ erased m', unmapAll m ranges = some (erased, m') ∧ m'.WellFormed ∧
      m'.extents = Extent.cuts (endsOf ranges) m.extents ∧
      ∀ stackFilter, filteredSize stackFilter erased =
        selectedSize stackFilter m - selectedSize stackFilter m' := by
  induction ranges using List.reverseRecOn with
  | nil => exact ⟨[], m, rfl, hm, rfl, fun stackFilter => (sub_self _).symm⟩
  | append_singleton ranges range ih =>
      obtain ⟨erased, m₁, hrun, hm₁, hext₁, hsize₁⟩ := ih fun r hr =>
        hranges r (List.mem_append_left _ hr)
      have hpos := hranges range (List.mem_append_right _ List.mem_cons_self)
      obtain ⟨erased', m₂, hunmap, hm₂, hext₂, hsize₂⟩ :=
        registerUnmap_sizes hm₁ range.1 hpos
      refine ⟨erased ++ erased', m₂, ?_, hm₂, ?_, fun stackFilter => ?_⟩
      · rw [unmapAll, List.foldlM_append, ← unmapAll, hrun]
        simp [hunmap]
      · rw [hext₂, hext₁, cuts_endsOf_concat]
      · rw [filteredSize_append, hsize₁, hsize₂]
        ring

/-- Unmappings of the same addresses leave the same map, and what they erase has
the same size for every stack filter. -/
theorem unmapAll_same (hm : m.WellFormed) {ranges ranges' : List (ℤ × ℕ)}
    (hranges : ∀ r ∈ ranges, 0 < r.2) (hranges' : ∀ r ∈ ranges', 0 < r.2)
    (hsame : SameAddresses ranges ranges') :
    ∃ erased erased' m', unmapAll m ranges = some (erased, m') ∧
      unmapAll m ranges' = some (erased', m') ∧
      ∀ stackFilter, filteredSize stackFilter erased = filteredSize stackFilter erased' := by
  obtain ⟨erased, m₁, hrun, hm₁, hext, hsize⟩ := unmapAll_spec hm hranges
  obtain ⟨erased', m₂, hrun', hm₂, hext', hsize'⟩ := unmapAll_spec hm hranges'
  have hcuts : m₁.extents = m₂.extents := by
    rw [hext, hext']
    exact Extent.cuts_eq_of_points (lt_of_mem_endsOf hranges) (lt_of_mem_endsOf hranges') hsame
      hm.tiled.1
  obtain rfl := hm₁.eq_of_extents hm₂ hcuts
  exact ⟨erased, erased', m₁, hrun, hrun', fun stackFilter => by rw [hsize, hsize']⟩

/-- Of four mapped pages two are unmapped at once, or one of them and then both. -/
theorem unmapAll_same_fourPages :
    ∃ added erased₀ m, (empty : MemoryMap ℕ).registerMap ⟨4096, 16384, 1⟩ =
        some (added, erased₀, m) ∧
      ∃ erased erased' m', unmapAll m [(8192, 8192)] = some (erased, m') ∧
        unmapAll m [(12288, 4096), (8192, 8192)] = some (erased', m') ∧
        ∀ stackFilter, filteredSize stackFilter erased = filteredSize stackFilter erased' := by
  obtain ⟨erased₀, m, hmap, hm, -⟩ :=
    registerMap_spec (wellFormed_empty (S := ℕ)) ⟨4096, 16384, 1⟩ (by decide)
  refine ⟨_, erased₀, m, hmap, unmapAll_same hm (by simp) (by simp) fun x => ?_⟩
  simp only [Extent.InRanges, endsOf, List.map_cons, List.map_nil, List.mem_cons,
    List.not_mem_nil, or_false, exists_eq_or_imp, exists_eq_left]
  omega

end ParseMmapLog.MemoryMap
end AllocCounter
