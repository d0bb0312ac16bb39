import AllocCounter.MemoryMap

/-!
# What an unmapping leaves

`registerUnmap` splits at both ends of its range and erases the keys between
them. On a well-formed map the effect can be read off one slice at a time: each
old slice leaves what it has before the range and what it has behind it.
-/
namespace AllocCounter.MmapCounter

variable {T : Type*} {t : Target}

/-- The part `[lo, hi)` of a slice, if there is one, under its own start. -/
def MemorySlice.part (s : MemorySlice T) (lo hi : ℤ) : List (ℤ × MemorySlice T) :=
  if lo < hi then [(lo, ⟨lo, (hi - lo).toNat, s.allocation⟩)] else []

/-- What remains of a slice without `[start, stop)`. -/
def MemorySlice.remainders (start stop : ℤ) (s : MemorySlice T) : List (ℤ × MemorySlice T) :=
  s.part s.start (min (s.start + s.size) start) ++ s.part (max s.start stop) (s.start + s.size)

namespace MemoryMap

/-- The entry of the slice with a given extent. -/
def entryOf (e : Extent ℤ (AllocationPointer T)) : ℤ × MemorySlice T :=
  (e.start, ⟨e.start, (e.stop - e.start).toNat, e.owner⟩)

theorem entryOf_extent {e : ℤ × MemorySlice T} (h : e.1 = e.2.start) : entryOf e.2.extent = e := by
  obtain ⟨key, s⟩ := e
  obtain rfl : key = s.start := h
  simp [entryOf, MemorySlice.extent]

/-- A well-formed map is determined by its extents. -/
theorem WellFormed.entries_eq {m : MemoryMap T} (h : m.WellFormed t) :
    m.slices.entries = m.extents.map entryOf := by
  rw [extents, SortedMap.extents, List.map_map]
  refine ((List.map_congr_left fun e he => ?_).trans (List.map_id _)).symm
  exact entryOf_extent (h.key_eq e he)

theorem entryOf_outside (start stop : ℤ) (s : MemorySlice T) :
    (s.extent.outside start stop).map entryOf = s.remainders start stop := by
  rw [Extent.outside, List.map_append, MemorySlice.remainders]
  congr 1
  · rw [Extent.before, apply_ite (List.map entryOf)]
    rfl
  · rw [Extent.after, apply_ite (List.map entryOf)]
    rfl

/-- On a well-formed map `registerUnmap` leaves of every slice exactly its
remainders, and it answers whether an address of the range was owned. -/
theorem registerUnmap_exact (m : MemoryMap T) (hm : m.WellFormed t) (start : ℤ) (size : ℕ)
    (hsize : 0 < size) (hrange : Representable t start size) :
    ∃ known m', m.registerUnmap t start size = some (known, m') ∧ m'.WellFormed t ∧
      m'.slices.entries = m.slices.entries.flatMap
        (fun e => e.2.remainders start (start + size)) ∧
      (known = true ↔ ∃ x, start ≤ x ∧ x < start + size ∧ m.owner x ≠ none) := by
  obtain ⟨known, m', hunmap, hm', -, hext, hknown⟩ := registerUnmap_spec hm start size hsize hrange
  refine ⟨known, m', hunmap, hm', ?_, ?_⟩
  · rw [hm'.entries_eq, hext, Extent.cut, List.map_flatMap, extents, SortedMap.extents,
      List.flatMap_map]
    simp only [entryOf_outside]
  · rw [hknown, ne_eq, hm.tiled.cutOff_eq_nil]
    simp only [owner, not_forall, exists_prop]

/-- Two mappings of two pages each, one behind the other. -/
def twoMappings : MemoryMap ℕ :=
  (empty.registerMap ⟨1, 4096, 8192⟩).registerMap ⟨2, 12288, 8192⟩

theorem wellFormed_twoMappings : twoMappings.WellFormed .lp64 := by
  obtain ⟨hwf, -, howner⟩ := registerMap_spec (t := .lp64) (T := ℕ) wellFormed_empty
    ⟨1, 4096, 8192⟩ (by decide) ⟨by decide, by decide⟩ fun _ _ _ => rfl
  refine (registerMap_spec hwf ⟨2, 12288, 8192⟩ (by decide) ⟨by decide, by decide⟩ ?_).1
  intro x hlo _
  rw [howner, if_neg fun h => not_le.mpr h.2 hlo]
  rfl

/-- Unmapping the second page of one mapping and the first page of the next. -/
theorem registerUnmap_exact_twoMappings :
    ∃ known m', twoMappings.registerUnmap .lp64 8192 8192 = some (known, m') ∧
      m'.WellFormed .lp64 ∧
      m'.slices.entries = twoMappings.slices.entries.flatMap
        (fun e => e.2.remainders 8192 (8192 + (8192 : ℕ))) ∧
      (known = true ↔ ∃ x : ℤ, 8192 ≤ x ∧ x < 8192 + (8192 : ℕ) ∧ twoMappings.owner x ≠ none) :=
  registerUnmap_exact twoMappings wellFormed_twoMappings 8192 8192 (by decide)
    ⟨by decide, by decide⟩

end MemoryMap
end AllocCounter.MmapCounter
