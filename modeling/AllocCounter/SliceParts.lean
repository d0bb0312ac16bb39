import AllocCounter.MemoryMap

/-!
# Parts of mappings

Whatever is mapped over what, every slice stays under its own start and inside
the range that was registered for its allocation. So `splitAt` fails no assertion
and an unmapping leaves nothing that starts in its range. A registered range may
be empty here, as it is when the length of a mapping is cut to 32 bits.
-/
namespace AllocCounter.MmapCounter

variable {T : Type*} {t : Target}

/-- The slice is kept under its start. It is a part of the range of its
allocation, and it is empty only if that range is. -/
structure MemorySlice.PartOf (t : Target) (key : ℤ) (s : MemorySlice T) : Prop where
  key_eq : key = s.start
  range : Representable t s.allocation.target.originalStart s.allocation.target.originalSize
  start_le : s.allocation.target.originalStart ≤ s.start
  stop_le : s.start + s.size ≤
    s.allocation.target.originalStart + s.allocation.target.originalSize
  size_pos : 0 < s.allocation.target.originalSize → 0 < s.size

theorem MemorySlice.PartOf.representable {key : ℤ} {s : MemorySlice T} (h : s.PartOf t key) :
    Representable t s.start s.size :=
  ⟨h.range.1.trans h.start_le, h.stop_le.trans h.range.2⟩

namespace MemoryMap

variable {m m' : MemoryMap T}

/-- Every slice is a part of its allocation. -/
def Parts (t : Target) (m : MemoryMap T) : Prop := ∀ e ∈ m.slices.entries, e.2.PartOf t e.1

theorem parts_empty : (empty : MemoryMap T).Parts t := nofun

theorem Parts.registerMap (h : m.Parts t) {a : MMapAllocation T}
    (ha : Representable t a.originalStart a.originalSize) : (m.registerMap a).Parts t := by
  intro e he
  rw [MemoryMap.registerMap, SortedMap.insertNew_entries] at he
  cases SortedMap.eq_or_mem_of_mem_place (fun _ => .inl rfl) he with
  | inl hnew =>
      rw [hnew]
      exact ⟨rfl, ha, le_rfl, le_rfl, id⟩
  | inr hold => exact h e hold

/-- Both halves of a slice are parts of its allocation. -/
theorem Parts.splitAt (h : m.Parts t) {pointer : ℤ} (hsplit : m.splitAt t pointer = some m') :
    m'.Parts t := by
  simp only [MemoryMap.splitAt] at hsplit
  split_ifs at hsplit with hbegin
  · rwa [← Option.some.inj hsplit]
  · split at hsplit
    · rwa [← Option.some.inj hsplit]
    · rename_i key slice hiter
      have hpart : slice.PartOf t key := h _ (List.mem_of_getElem? hiter)
      split_ifs at hsplit with hstart hout
      · rwa [← Option.some.inj hsplit]
      rw [stop_eq hpart.representable, not_or, not_le] at hout
      obtain ⟨hne, hhi⟩ := hout
      have hlo : slice.start < pointer := lt_of_le_of_ne hstart (Ne.symm hne)
      obtain ⟨hmin, hmax⟩ := hpart.representable
      have hleft := t.sizeT_sub hmin hstart (hhi.le.trans hmax)
      have hright := t.sizeT_sub (hmin.trans hstart) hhi.le hmax
      have hle := hpart.start_le
      have hge := hpart.stop_le
      intro e he
      rw [← Option.some.inj hsplit, SortedMap.insertNew_entries, SortedMap.set_entries] at he
      cases SortedMap.eq_or_mem_of_mem_place (fun _ => .inl rfl) he with
      | inl hnew =>
          rw [hnew, stop_eq hpart.representable]
          exact ⟨rfl, hpart.range, hle.trans hstart, by simp only; omega, fun _ => by simp only; omega⟩
      | inr he =>
          cases SortedMap.eq_or_mem_of_mem_place (fun _ => .inr rfl) he with
          | inl hshrunk =>
              rw [hshrunk]
              exact ⟨hpart.key_eq, hpart.range, hle, by simp only; omega, fun _ => by simp only; omega⟩
          | inr hold => exact h e hold

theorem Parts.registerUnmap (h : m.Parts t) {start : ℤ} {size : ℕ} {known : Bool}
    (hunmap : m.registerUnmap t start size = some (known, m')) : m'.Parts t := by
  simp only [MemoryMap.registerUnmap, Option.bind_eq_some_iff, Option.map_eq_some_iff] at hunmap
  obtain ⟨m₁, h₁, m₂, h₂, slices, herase, heq⟩ := hunmap
  obtain ⟨-, rfl⟩ := Prod.mk.inj heq
  have hparts := (h.splitAt h₁).splitAt h₂
  exact fun e he => hparts e (SortedMap.mem_of_mem_eraseRange herase he)

theorem Parts.isSome_splitAt (h : m.Parts t) (pointer : ℤ) : (m.splitAt t pointer).isSome := by
  obtain ⟨l, r, hlr, hl, hr⟩ := m.slices.exists_cut (· ≤ pointer) fun a b hab hb => hab.le.trans hb
  have hsearch := SortedMap.upperBound_eq hlr hl fun e he => not_le.mp (hr e he)
  simp only [MemoryMap.splitAt]
  split_ifs with hbegin
  · rfl
  · split
    · rfl
    · rename_i key slice hiter
      have hmem : (key, slice) ∈ l := by
        have hlast : l.length - 1 < l.length := by omega
        rw [hsearch, hlr, List.getElem?_append_left hlast] at hiter
        exact List.mem_of_getElem? hiter
      have hpart : slice.PartOf t key := h _ (List.mem_of_getElem? hiter)
      have hle : slice.start ≤ pointer := hpart.key_eq ▸ hl _ hmem
      rw [if_neg (not_not.mpr hle)]
      split_ifs <;> rfl

theorem Parts.isSome_registerUnmap (h : m.Parts t) {start : ℤ} {size : ℕ}
    (hrange : Representable t start size) : (m.registerUnmap t start size).isSome := by
  have hle : start ≤ start + size := by omega
  obtain ⟨m₁, h₁⟩ := Option.isSome_iff_exists.mp (h.isSome_splitAt start)
  obtain ⟨m₂, h₂⟩ := Option.isSome_iff_exists.mp ((h.splitAt h₁).isSome_splitAt (start + size))
  simp only [MemoryMap.registerUnmap, t.intptr_eq (hrange.1.trans hle) hrange.2, h₁, h₂,
    Option.bind_some, SortedMap.eraseRange_lowerBound _ hle, Option.map_some, Option.isSome_some]

/-- Nothing starts in the range any more, and what started outside it still does. -/
theorem keys_registerUnmap {start : ℤ} {size : ℕ} (hrange : Representable t start size)
    {known : Bool} (hunmap : m.registerUnmap t start size = some (known, m')) :
    (∀ e ∈ m'.slices.entries, ¬ (start ≤ e.1 ∧ e.1 < start + size)) ∧
      ∀ x ∈ m.slices.entries.map Prod.fst, ¬ (start ≤ x ∧ x < start + size) →
        x ∈ m'.slices.entries.map Prod.fst := by
  have hle : start ≤ start + size := by omega
  simp only [registerUnmap, t.intptr_eq (hrange.1.trans hle) hrange.2, Option.bind_eq_some_iff,
    SortedMap.eraseRange_lowerBound _ hle, Option.map_some, Option.some.injEq] at hunmap
  obtain ⟨m₁, h₁, m₂, h₂, heq⟩ := hunmap
  obtain ⟨-, rfl⟩ := Prod.mk.inj heq
  constructor
  · intro e he
    exact of_decide_eq_true (List.mem_filter.mp he).2
  · intro x hx hout
    obtain ⟨e, he, rfl⟩ := List.mem_map.mp
      ((mem_keys_splitAt h₂ x).mpr (.inl ((mem_keys_splitAt h₁ x).mpr (.inl hx))))
    exact List.mem_map_of_mem (List.mem_filter.mpr ⟨he, decide_eq_true hout⟩)

end MemoryMap
end AllocCounter.MmapCounter
