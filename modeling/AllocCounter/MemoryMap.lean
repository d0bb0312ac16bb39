import AllocCounter.SlicePartitions
import AllocCounter.MachineWords

/-!
# The memory map of the mmap wrapper

This is `mmap-counter/memory-map.h`. A `std::map` is a sorted map and its
iterators are positions. Starts and ends are `intptr_t`, sizes are `size_t`, and
sums and differences are reduced to those types. A failed assertion and the
erasure of an invalid iterator range return `none`.

A `shared_ptr` to an allocation is the number of the object that `make_shared`
built, together with the object. The type of the stack trace handle is a
parameter.
-/
namespace AllocCounter.MmapCounter

structure MMapAllocation (T : Type*) where
  stackTrace : T
  originalStart : ℤ
  originalSize : ℕ
deriving DecidableEq, Repr

structure AllocationPointer (T : Type*) where
  object : ℕ
  target : MMapAllocation T
deriving DecidableEq, Repr

structure MemorySlice (T : Type*) where
  start : ℤ
  size : ℕ
  allocation : AllocationPointer T
deriving DecidableEq, Repr

/-- `made` counts the allocation objects built so far. -/
structure MemoryMap (T : Type*) where
  slices : SortedMap ℤ (MemorySlice T)
  made : ℕ
deriving DecidableEq

variable {T : Type*} (t : Target)

/-- `end()` in the source. -/
def MemorySlice.stop (s : MemorySlice T) : ℤ := t.intptr (s.start + s.size)

namespace MemoryMap

def empty : MemoryMap T := ⟨.empty, 0⟩

def registerMap (m : MemoryMap T) (allocation : MMapAllocation T) : MemoryMap T :=
  let start := allocation.originalStart
  let size := allocation.originalSize
  ⟨m.slices.insertNew start ⟨start, size, ⟨m.made, allocation⟩⟩, m.made + 1⟩

def splitAt (m : MemoryMap T) (pointer : ℤ) : Option (MemoryMap T) :=
  let iterNext := m.slices.upperBound pointer
  if iterNext = 0 then some m
  else
    let iter := iterNext - 1
    match m.slices.entries[iter]? with
    | none => some m
    | some (key, slice) =>
        if ¬ slice.start ≤ pointer then none
        else if pointer = slice.start ∨ slice.stop t ≤ pointer then some m
        else
          let newSliceEnd := slice.stop t
          let shrunk := { slice with size := t.sizeT (pointer - slice.start) }
          let added := ⟨pointer, t.sizeT (newSliceEnd - pointer), slice.allocation⟩
          some { m with slices := (m.slices.set key shrunk).insertNew pointer added }

/-- Returns whether known anonymous memory is unmapped, and the new map. -/
def registerUnmap (m : MemoryMap T) (start : ℤ) (size : ℕ) : Option (Bool × MemoryMap T) :=
  let stop := t.intptr (start + size)
  (m.splitAt t start).bind fun m₁ => (m₁.splitAt t stop).bind fun m₂ =>
    let eraseStart := m₂.slices.lowerBound start
    let eraseEnd := m₂.slices.lowerBound stop
    (m₂.slices.eraseRange eraseStart eraseEnd).map fun s =>
      (eraseStart != eraseEnd, { m₂ with slices := s })

end MemoryMap

namespace MemoryMap

variable {t} {m m' : MemoryMap T}

/-- A slice is new, or it was there. -/
theorem of_mem_registerMap {a : MMapAllocation T} {e : ℤ × MemorySlice T}
    (he : e ∈ (m.registerMap a).slices.entries) :
    e.2.allocation = ⟨m.made, a⟩ ∨ e ∈ m.slices.entries := by
  rw [registerMap, SortedMap.insertNew_entries] at he
  rcases SortedMap.eq_or_mem_of_mem_place (fun _ => .inl rfl) he with rfl | he
  · exact .inl rfl
  · exact .inr he

/-- Splitting keeps what the slices point to. -/
theorem of_mem_splitAt {pointer : ℤ} (h : m.splitAt t pointer = some m') :
    m'.made = m.made ∧ ∀ e' ∈ m'.slices.entries, ∃ e ∈ m.slices.entries,
      e'.2.allocation = e.2.allocation := by
  simp only [splitAt] at h
  split_ifs at h with hbegin
  · rw [← Option.some.inj h]
    exact ⟨rfl, fun e he => ⟨e, he, rfl⟩⟩
  · split at h
    · rw [← Option.some.inj h]
      exact ⟨rfl, fun e he => ⟨e, he, rfl⟩⟩
    · rename_i key slice hiter
      split_ifs at h with hstart hout
      · rw [← Option.some.inj h]
        exact ⟨rfl, fun e he => ⟨e, he, rfl⟩⟩
      · rw [← Option.some.inj h]
        refine ⟨rfl, fun e he => ?_⟩
        have hmem : (key, slice) ∈ m.slices.entries := List.mem_of_getElem? hiter
        rw [SortedMap.insertNew_entries, SortedMap.set_entries] at he
        rcases SortedMap.eq_or_mem_of_mem_place (fun _ => .inl rfl) he with rfl | he
        · exact ⟨_, hmem, rfl⟩
        · rcases SortedMap.eq_or_mem_of_mem_place (fun _ => .inr rfl) he with rfl | he
          · exact ⟨_, hmem, rfl⟩
          · exact ⟨e, he, rfl⟩

theorem of_mem_registerUnmap {start : ℤ} {size : ℕ} {known : Bool}
    (h : m.registerUnmap t start size = some (known, m')) :
    m'.made = m.made ∧ ∀ e' ∈ m'.slices.entries, ∃ e ∈ m.slices.entries,
      e'.2.allocation = e.2.allocation := by
  simp only [registerUnmap, Option.bind_eq_some_iff, Option.map_eq_some_iff] at h
  obtain ⟨m₁, h₁, m₂, h₂, slices, herase, heq⟩ := h
  obtain ⟨-, rfl⟩ := Prod.mk.inj heq
  have ⟨hmade₁, hmem₁⟩ := of_mem_splitAt h₁
  have ⟨hmade₂, hmem₂⟩ := of_mem_splitAt h₂
  refine ⟨hmade₂.trans hmade₁, fun e' he' => ?_⟩
  obtain ⟨e₂, he₂, heq₂⟩ := hmem₂ e' (SortedMap.mem_of_mem_eraseRange herase he')
  obtain ⟨e₁, he₁, heq₁⟩ := hmem₁ e₂ he₂
  exact ⟨e₁, he₁, heq₂.trans heq₁⟩

end MemoryMap

namespace MemoryMap

/-- The pointer is strictly inside the slice that starts last before it. -/
def Inside (m : MemoryMap T) (pointer : ℤ) : Prop :=
  m.slices.upperBound pointer ≠ 0 ∧ ∃ e ∈ m.slices.entries[m.slices.upperBound pointer - 1]?,
    e.2.start < pointer ∧ pointer < e.2.stop t

instance (m : MemoryMap T) (pointer : ℤ) : Decidable (m.Inside t pointer) :=
  inferInstanceAs (Decidable (_ ∧ _))

/-- A slice starts in the range, or its first address is inside one. -/
def Knows (m : MemoryMap T) (start : ℤ) (size : ℕ) : Prop :=
  start < t.intptr (start + size) ∧
    ((∃ e ∈ m.slices.entries, start ≤ e.1 ∧ e.1 < t.intptr (start + size)) ∨ m.Inside t start)

instance (m : MemoryMap T) (start : ℤ) (size : ℕ) : Decidable (m.Knows t start size) :=
  inferInstanceAs (Decidable (_ ∧ _))

variable {t} {m m' : MemoryMap T}

/-- Splitting adds the pointer to the keys if it is inside a slice. -/
theorem mem_keys_splitAt {pointer : ℤ} (h : m.splitAt t pointer = some m') (x : ℤ) :
    x ∈ m'.slices.entries.map Prod.fst ↔
      x ∈ m.slices.entries.map Prod.fst ∨ x = pointer ∧ m.Inside t pointer := by
  simp only [splitAt] at h
  split_ifs at h with hbegin
  · simp [← Option.some.inj h, Inside, hbegin]
  · split at h
    · rename_i hiter
      simp [← Option.some.inj h, Inside, hiter]
    · rename_i key slice hiter
      have hmem : key ∈ m.slices.entries.map Prod.fst :=
        List.mem_map_of_mem (List.mem_of_getElem? hiter)
      split_ifs at h with hstart hout
      · have hnot : ¬ m.Inside t pointer := by
          intro ⟨_, e, he, hlo, hhi⟩
          obtain rfl := Option.some.inj (hiter.symm.trans he)
          exact hout.elim hlo.ne' (not_le.mpr hhi)
        simp [← Option.some.inj h, hnot]
      · have hinside : m.Inside t pointer := by
          rw [not_or, not_le] at hout
          exact ⟨hbegin, _, hiter, lt_of_le_of_ne hstart (Ne.symm hout.1), hout.2⟩
        rw [← Option.some.inj h, SortedMap.insertNew_entries, SortedMap.set_entries,
          SortedMap.mem_keys_place, SortedMap.mem_keys_place]
        simp only [hinside, and_true]
        constructor
        · rintro (rfl | rfl | hx)
          · exact .inr rfl
          · exact .inl hmem
          · exact .inl hx
        · exact fun hx => hx.symm.imp_right Or.inr

/-- On any map, `registerUnmap` answers whether the range is known. -/
theorem registerUnmap_answer {start : ℤ} {size : ℕ} {known : Bool}
    (h : m.registerUnmap t start size = some (known, m')) :
    known = true ↔ m.Knows t start size := by
  simp only [registerUnmap, Option.bind_eq_some_iff, Option.map_eq_some_iff] at h
  obtain ⟨m₁, h₁, m₂, h₂, slices, herase, heq⟩ := h
  obtain ⟨rfl, -⟩ := Prod.mk.inj heq
  rw [bne_iff_ne, Knows]
  by_cases hlt : start < t.intptr (start + size)
  · have hkeys : ∀ x, x < t.intptr (start + size) → (x ∈ m₂.slices.entries.map Prod.fst ↔
        x ∈ m.slices.entries.map Prod.fst ∨ x = start ∧ m.Inside t start) := by
      intro x hx
      rw [mem_keys_splitAt h₂, mem_keys_splitAt h₁]
      simp [hx.ne]
    rw [SortedMap.lowerBound_ne_iff _ hlt.le]
    constructor
    · intro ⟨e, he, hlo, hhi⟩
      refine ⟨hlt, ?_⟩
      cases (hkeys e.1 hhi).mp (List.mem_map_of_mem he) with
      | inl hold =>
          obtain ⟨f, hf, hkey⟩ := List.mem_map.mp hold
          exact .inl ⟨f, hf, hkey ▸ hlo, hkey ▸ hhi⟩
      | inr hnew => exact .inr hnew.2
    · intro ⟨_, hcase⟩
      have hkey : ∃ x, x ∈ m₂.slices.entries.map Prod.fst ∧ start ≤ x ∧
          x < t.intptr (start + size) := by
        cases hcase with
        | inl hold =>
            obtain ⟨e, he, hlo, hhi⟩ := hold
            exact ⟨e.1, (hkeys e.1 hhi).mpr (.inl (List.mem_map_of_mem he)), hlo, hhi⟩
        | inr hinside => exact ⟨start, (hkeys start hlt).mpr (.inr ⟨rfl, hinside⟩), le_rfl, hlt⟩
      obtain ⟨x, hx, hlo, hhi⟩ := hkey
      obtain ⟨e, he, rfl⟩ := List.mem_map.mp hx
      exact ⟨e, he, hlo, hhi⟩
  · have hsame := SortedMap.lowerBound_eq_of_eraseRange (not_lt.mp hlt) herase
    simp [hlt, hsame]

end MemoryMap

def MemorySlice.extent (s : MemorySlice T) : Extent ℤ (AllocationPointer T) :=
  ⟨s.start, s.start + s.size, s.allocation⟩

/-- The range `[start, start + size)` does not overflow `intptr_t`. -/
def Representable (start : ℤ) (size : ℕ) : Prop :=
  t.intptrMin ≤ start ∧ start + size ≤ t.intptrMax

namespace MemoryMap

def extents (m : MemoryMap T) : List (Extent ℤ (AllocationPointer T)) :=
  m.slices.extents MemorySlice.extent

/-- The allocation whose slice contains an address. -/
def owner (m : MemoryMap T) (x : ℤ) : Option (AllocationPointer T) := Extent.ownerOf m.extents x

/-- Every key is the start of its slice; the slices, which are listed in key
order, are representable and not empty, none reaches into a later one, and they
belong to objects already built. -/
structure WellFormed (m : MemoryMap T) : Prop where
  key_eq : ∀ e ∈ m.slices.entries, e.1 = e.2.start
  size_pos : ∀ e ∈ m.slices.entries, 0 < e.2.size
  representable : ∀ e ∈ m.slices.entries, Representable t e.2.start e.2.size
  disjoint : m.slices.entries.Pairwise fun a b => a.2.start + (a.2.size : ℤ) ≤ b.2.start
  object_lt : ∀ e ∈ m.slices.entries, e.2.allocation.object < m.made

variable {t}

/-- What well-formedness says about one extent, apart from its neighbours. -/
def Admits (t : Target) (made : ℕ) (e : Extent ℤ (AllocationPointer T)) : Prop :=
  t.intptrMin ≤ e.start ∧ e.stop ≤ t.intptrMax ∧ e.owner.object < made

theorem extent_nonempty {s : MemorySlice T} : s.extent.start < s.extent.stop ↔ 0 < s.size := by
  simp only [MemorySlice.extent]
  omega

theorem wellFormed_iff {m : MemoryMap T} :
    m.WellFormed t ↔ m.slices.Partition MemorySlice.extent ∧ ∀ e ∈ m.extents, Admits t m.made e := by
  constructor
  · intro h
    refine ⟨⟨h.key_eq, ?_, List.pairwise_map.mpr h.disjoint⟩, ?_⟩
    · exact List.forall_mem_map.mpr fun e he => extent_nonempty.mpr (h.size_pos e he)
    · exact List.forall_mem_map.mpr fun e he =>
        ⟨(h.representable e he).1, (h.representable e he).2, h.object_lt e he⟩
  · intro ⟨h, ha⟩
    replace ha := List.forall_mem_map.mp ha
    refine ⟨h.keyed, ?_, fun e he => ⟨(ha e he).1, (ha e he).2.1⟩, List.pairwise_map.mp h.tiled.2,
      fun e he => (ha e he).2.2⟩
    exact fun e he => extent_nonempty.mp (List.forall_mem_map.mp h.tiled.1 e he)

theorem WellFormed.tiled {m : MemoryMap T} (h : m.WellFormed t) : Extent.Tiled m.extents :=
  (wellFormed_iff.mp h).1.tiled

theorem wellFormed_empty : (empty : MemoryMap T).WellFormed t :=
  wellFormed_iff.mpr ⟨SortedMap.partition_empty, by simp [extents, SortedMap.extents, empty]⟩

/-- Pieces of admitted extents are admitted. -/
theorem admits_flatMap {l : List (Extent ℤ (AllocationPointer T))} {made : ℕ}
    (hl : ∀ e ∈ l, Admits t made e)
    {g : Extent ℤ (AllocationPointer T) → List (Extent ℤ (AllocationPointer T))}
    (hg : ∀ e ∈ l, Extent.Pieces e (g e)) : ∀ p ∈ l.flatMap g, Admits t made p := by
  intro p hp
  obtain ⟨e, he, hpe⟩ := List.mem_flatMap.mp hp
  have hin := (hg e he).inside p hpe
  have ha := hl e he
  exact ⟨ha.1.trans hin.1, hin.2.trans ha.2.1, (hg e he).owner p hpe ▸ ha.2.2⟩

theorem stop_eq {s : MemorySlice T} (h : Representable t s.start s.size) :
    s.stop t = s.start + s.size :=
  t.intptr_eq (h.1.trans (by omega)) h.2

/-- The two halves of a slice. -/
theorem extent_left {c : MemorySlice T} {p : ℤ} (hrep : Representable t c.start c.size)
    (hlo : c.start < p) (hhi : p < c.start + c.size) :
    ({ c with size := t.sizeT (p - c.start) } : MemorySlice T).extent =
      { c.extent with stop := p } := by
  have hleft := t.sizeT_sub hrep.1 hlo.le (hhi.le.trans hrep.2)
  simp only [MemorySlice.extent, hleft]
  congr 1
  omega

theorem extent_right {c : MemorySlice T} {p : ℤ} (hrep : Representable t c.start c.size)
    (hlo : c.start < p) (hhi : p < c.start + c.size) :
    (⟨p, t.sizeT (c.start + c.size - p), c.allocation⟩ : MemorySlice T).extent =
      { c.extent with start := p } := by
  have hright := t.sizeT_sub (hrep.1.trans hlo.le) hhi.le hrep.2
  simp only [MemorySlice.extent, hright]
  congr 1
  omega

/-- Splitting inside the last slice that starts at or before the pointer. -/
theorem splitAt_entries {m : MemoryMap T} {p : ℤ} {l r : List (ℤ × MemorySlice T)} {key : ℤ}
    {c : MemorySlice T} (h : m.slices.entries = l ++ (key, c) :: r) (hkey : key = c.start)
    (hrep : Representable t c.start c.size) (hlo : c.start < p) (hhi : p < c.start + c.size)
    (hr : ∀ e ∈ r, p < e.1) :
    ∃ m', m.splitAt t p = some m' ∧ m'.made = m.made ∧ m'.slices.entries =
      l ++ (key, { c with size := t.sizeT (p - c.start) }) ::
        (p, ⟨p, t.sizeT (c.start + c.size - p), c.allocation⟩) :: r := by
  let left : MemorySlice T := { c with size := t.sizeT (p - c.start) }
  let right : MemorySlice T := ⟨p, t.sizeT (c.start + c.size - p), c.allocation⟩
  have hl := (SortedMap.keys_around h).1
  have hbefore : ∀ e ∈ l ++ [(key, c)], e.1 < p := by
    intro e he
    rcases List.mem_append.mp he with he | he
    · exact (hl e he).trans (hkey ▸ hlo)
    · exact List.mem_singleton.mp he ▸ hkey ▸ hlo
  have hsearch : m.slices.upperBound p = (l ++ [(key, c)]).length :=
    SortedMap.upperBound_eq (by simp [h]) (fun e he => (hbefore e he).le) hr
  refine ⟨⟨(m.slices.set key left).insertNew p right, m.made⟩, ?_, rfl, ?_⟩
  · have hiter : m.slices.entries[m.slices.upperBound p - 1]? = some (key, c) := by
      simp [hsearch, h]
    have hne : m.slices.upperBound p ≠ 0 := by simp [hsearch]
    simp [splitAt, hiter, hne, stop_eq hrep, hlo.le, hlo.ne', hhi, left, right]
  · rw [SortedMap.insertNew_entries, SortedMap.set_entries, h,
      SortedMap.place_append_cons _ _ _ _ hl, List.append_cons, SortedMap.place_append,
      ← List.append_cons]
    · intro e he
      rcases List.mem_append.mp he with he | he
      · exact hbefore e (List.mem_append_left _ he)
      · exact List.mem_singleton.mp he ▸ hkey ▸ hlo
    · exact hr

theorem splitAt_inside {m : MemoryMap T} (hm : m.WellFormed t) {p : ℤ}
    {l r : List (ℤ × MemorySlice T)} {key : ℤ} {c : MemorySlice T}
    (h : m.slices.entries = l ++ (key, c) :: r) (hlo : c.start < p) (hhi : p < c.start + c.size)
    (hr : ∀ e ∈ r, p < e.1) :
    ∃ m', m.splitAt t p = some m' ∧ m'.WellFormed t ∧ m'.made = m.made ∧
      m'.extents = m.extents.flatMap (Extent.splitAt p) := by
  obtain ⟨hp, ha⟩ := wellFormed_iff.mp hm
  have hrep := hm.representable (key, c) (by simp [h])
  obtain ⟨m', hsplit, hmade, hentries⟩ := splitAt_entries h (hp.around h).1 hrep hlo hhi hr
  have ⟨hpart, hext⟩ := hp.split _ _ h hlo hhi (extent_left hrep hlo hhi)
    (extent_right hrep hlo hhi) hentries
  refine ⟨m', hsplit, wellFormed_iff.mpr ⟨hpart, ?_⟩, hmade, hext⟩
  rw [extents, hext, hmade]
  exact admits_flatMap ha fun e he => Extent.pieces_splitAt p (hp.tiled.1 e he)

/-- Splitting a well-formed map fails no assertion and splits the slice, if any,
that has the pointer strictly inside. -/
theorem splitAt_spec {m : MemoryMap T} (hm : m.WellFormed t) (p : ℤ) :
    ∃ m', m.splitAt t p = some m' ∧ m'.WellFormed t ∧ m'.made = m.made ∧
      m'.extents = m.extents.flatMap (Extent.splitAt p) := by
  obtain ⟨hp, -⟩ := wellFormed_iff.mp hm
  obtain ⟨l, r, hlr, hl, hr⟩ := m.slices.exists_cut (· ≤ p) fun a b hab hb => hab.le.trans hb
  replace hr : ∀ e ∈ r, p < e.1 := fun e he => not_le.mp (hr e he)
  have hsearch := SortedMap.upperBound_eq hlr hl hr
  rcases l.eq_nil_or_concat' with rfl | ⟨l, ⟨key, c⟩, rfl⟩
  · refine ⟨m, by simp [splitAt, hsearch], hm, rfl, ?_⟩
    refine (SortedMap.Partition.splitAt_outside fun e he => .inl ?_).symm
    rw [← hp.keyed e he]
    exact (hr e (by simpa [hlr] using he)).le
  · rw [List.append_assoc, List.singleton_append] at hlr
    have hkey : key = c.start := (hp.around hlr).1
    have hle : c.start ≤ p := hkey ▸ hl (key, c) (by simp)
    have hrep := hm.representable (key, c) (by simp [hlr])
    by_cases hin : c.start < p ∧ p < c.start + c.size
    · exact splitAt_inside hm hlr hin.1 hin.2 hr
    · have hout : p = c.start ∨ c.start + c.size ≤ p := by omega
      have hiter : m.slices.entries[m.slices.upperBound p - 1]? = some (key, c) := by
        simp [hsearch, hlr]
      refine ⟨m, by simp [splitAt, hiter, stop_eq hrep, hle, hout], hm, rfl, ?_⟩
      exact (SortedMap.Partition.splitAt_outside (hp.outside_of_last hlr
        (hout.imp_left le_of_eq) (hkey ▸ hle) fun e he => (hr e he).le)).symm

/-- On a well-formed map `registerUnmap` cuts the range out, and returns whether
it cut anything off. -/
theorem registerUnmap_spec {m : MemoryMap T} (hm : m.WellFormed t) (start : ℤ) (size : ℕ)
    (hsize : 0 < size) (hrange : Representable t start size) :
    ∃ b m', m.registerUnmap t start size = some (b, m') ∧ m'.WellFormed t ∧ m'.made = m.made ∧
      m'.extents = Extent.cut start (start + size) m.extents ∧
      (b = true ↔ Extent.cutOff start (start + size) m.extents ≠ []) := by
  have hle : start ≤ start + size := by omega
  have hstop : t.intptr (start + size) = start + size := t.intptr_eq (hrange.1.trans hle) hrange.2
  obtain ⟨hp, ha⟩ := wellFormed_iff.mp hm
  obtain ⟨m₁, hs₁, hm₁, hmade₁, he₁⟩ := splitAt_spec hm start
  obtain ⟨m₂, hs₂, hm₂, hmade₂, he₂⟩ := splitAt_spec hm₁ (start + size)
  have hp₂ := (wellFormed_iff.mp hm₂).1
  obtain ⟨hout, hin⟩ := hp.cut hle he₁ he₂ hp₂
  refine ⟨m₂.slices.lowerBound start != m₂.slices.lowerBound (start + size),
    ⟨⟨_, m₂.slices.filter_sorted fun e => ¬ (start ≤ e.1 ∧ e.1 < start + size)⟩, m₂.made⟩, ?_,
    wellFormed_iff.mpr ⟨hp₂.filter _, ?_⟩, hmade₂.trans hmade₁, hout, ?_⟩
  · simp only [registerUnmap, hs₁, hs₂, hstop, Option.bind_some,
      SortedMap.eraseRange_lowerBound _ hle, Option.map_some]
  · rw [extents, hout, hmade₂, hmade₁]
    exact admits_flatMap ha fun e _ => Extent.pieces_outside hle e
  · rw [bne_iff_ne, SortedMap.lowerBound_ne_iff _ hle, extents, ← hin]
    simp [List.filter_eq_nil_iff]

theorem extents_registerMap (m : MemoryMap T) (a : MMapAllocation T) :
    (m.registerMap a).extents = (SortedMap.place (fun old _ => old) a.originalStart
      (⟨a.originalStart, a.originalSize, ⟨m.made, a⟩⟩ : MemorySlice T) m.slices.entries).map
        fun e => e.2.extent := rfl

/-- On a range that nobody owns `registerMap` adds one slice for the new object. -/
theorem registerMap_spec {m : MemoryMap T} (hm : m.WellFormed t) (a : MMapAllocation T)
    (hsize : 0 < a.originalSize) (hrange : Representable t a.originalStart a.originalSize)
    (hfree : ∀ x, a.originalStart ≤ x → x < a.originalStart + a.originalSize → m.owner x = none) :
    (m.registerMap a).WellFormed t ∧
      (m.registerMap a).extents = Extent.insert
        ⟨a.originalStart, a.originalStart + a.originalSize, ⟨m.made, a⟩⟩ m.extents ∧
      ∀ x, (m.registerMap a).owner x =
        if a.originalStart ≤ x ∧ x < a.originalStart + a.originalSize
        then some ⟨m.made, a⟩ else m.owner x := by
  obtain ⟨hp, ha⟩ := wellFormed_iff.mp hm
  let added : MemorySlice T := ⟨a.originalStart, a.originalSize, ⟨m.made, a⟩⟩
  have hgap : ∀ e ∈ m.slices.entries, e.2.extent.stop ≤ added.extent.start ∨
      added.extent.stop ≤ e.2.extent.start := by
    intro e he
    by_contra hcon
    rw [not_or, not_le, not_le] at hcon
    have hmem : e.2.extent ∈ m.extents := List.mem_map_of_mem (f := fun e => e.2.extent) he
    have hne := extent_nonempty.mpr (hm.size_pos e he)
    -- the greater of the two starts is in both ranges
    have hx := hfree (max e.2.extent.start a.originalStart) (le_max_right _ _)
      (max_lt hcon.2 (by omega))
    have hcov : e.2.extent.Covers (max e.2.extent.start a.originalStart) :=
      ⟨le_max_left _ _, max_lt hne hcon.1⟩
    rw [owner, hm.tiled.ownerOf_of_mem hmem hcov] at hx
    simp at hx
  obtain ⟨hpart, hext, howner⟩ := hp.insert (v := added) rfl (extent_nonempty.mpr hsize) hgap _
    (SortedMap.insertNew_entries m.slices a.originalStart added)
  refine ⟨wellFormed_iff.mpr ⟨hpart, ?_⟩, hext, howner⟩
  rw [extents_registerMap]
  refine List.forall_mem_map.mpr fun e he => ?_
  rcases SortedMap.eq_or_mem_of_mem_place (fun _ => .inl rfl) he with rfl | he
  · exact ⟨hrange.1, hrange.2, Nat.lt_succ_self _⟩
  · have hold := ha _ (List.mem_map_of_mem (f := fun e => e.2.extent) he)
    exact ⟨hold.1, hold.2.1, hold.2.2.trans (Nat.lt_succ_self _)⟩

/-- The new allocation owns its whole range and nobody else lost anything. -/
def LastWins (t : Target) (m : MemoryMap T) (a : MMapAllocation T) : Prop :=
  (m.registerMap a).WellFormed t ∧ ∀ x, (m.registerMap a).owner x =
    if a.originalStart ≤ x ∧ x < a.originalStart + a.originalSize
    then some ⟨m.made, a⟩ else m.owner x

/-- `registerMap` neither splits nor erases what it overlaps, so the last
mapping wins exactly when its range was free. -/
theorem lastWins_iff_free {m : MemoryMap T} (hm : m.WellFormed t) (a : MMapAllocation T)
    (hsize : 0 < a.originalSize) (hrange : Representable t a.originalStart a.originalSize) :
    LastWins t m a ↔
      ∀ x, a.originalStart ≤ x → x < a.originalStart + a.originalSize → m.owner x = none := by
  constructor
  · intro ⟨hwf, howner⟩ x hlo hhi
    refine Option.eq_none_iff_forall_ne_some.mpr fun p hp => ?_
    obtain ⟨e, he, hcov, rfl⟩ := Extent.exists_of_ownerOf hp
    have hobject := ((wellFormed_iff.mp hm).2 e he).2.2
    -- the overlapped slice is still in the map and still covers the address
    obtain ⟨f, hf, rfl⟩ := List.mem_map.mp he
    have hmem : f.2.extent ∈ (m.registerMap a).extents := by
      rw [extents_registerMap]
      exact List.mem_map_of_mem (f := fun e => e.2.extent) (SortedMap.mem_place_old hf)
    have hold := hwf.tiled.ownerOf_of_mem hmem hcov
    have hnew := howner x
    rw [if_pos ⟨hlo, hhi⟩, owner, hold, Option.some.injEq] at hnew
    rw [hnew] at hobject
    exact lt_irrefl _ hobject
  · intro hfree
    obtain ⟨hwf, -, howner⟩ := registerMap_spec hm a hsize hrange hfree
    exact ⟨hwf, howner⟩

private theorem wellFormed_twoPages :
    (empty.registerMap ⟨1, 4096, 8192⟩ : MemoryMap ℕ).WellFormed .lp64 :=
  (registerMap_spec wellFormed_empty ⟨1, 4096, 8192⟩ (by decide) ⟨by decide, by decide⟩
    fun _ _ _ => rfl).1

/-- A page mapped behind a mapping of two pages. -/
theorem lastWins_iff_free_behind :
    LastWins .lp64 (empty.registerMap ⟨1, 4096, 8192⟩) ⟨2, 12288, 4096⟩ ↔
      ∀ x : ℤ, 12288 ≤ x → x < 12288 + (4096 : ℕ) →
        (empty.registerMap ⟨1, 4096, 8192⟩ : MemoryMap ℕ).owner x = none :=
  lastWins_iff_free wellFormed_twoPages ⟨2, 12288, 4096⟩ (by decide) ⟨by decide, by decide⟩

/-- A page mapped inside a mapping of two pages. -/
theorem not_lastWins_inside :
    ¬ ∀ (m : MemoryMap ℕ) (a : MMapAllocation ℕ), m.WellFormed .lp64 → 0 < a.originalSize →
      Representable .lp64 a.originalStart a.originalSize → LastWins .lp64 m a := by
  intro h
  have hwins := h _ ⟨2, 8192, 4096⟩ wellFormed_twoPages (by decide) ⟨by decide, by decide⟩
  have hover := hwins.1.disjoint
  simp [registerMap, SortedMap.insertNew, SortedMap.place, empty] at hover

end MemoryMap
end AllocCounter.MmapCounter
