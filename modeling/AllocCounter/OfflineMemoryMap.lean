import AllocCounter.SlicePartitions
import Mathlib.Data.List.Induction

/-!
# The memory map of the log parser

This is the class `MemoryMap` of `parse-mmap-log.py` over unbounded integers.
The dictionary is a sorted map from slice starts to slices; changing a slice
object in place is an assignment to its key. A failed assertion and a missing
key return `none`. The type of stack ids is a parameter, so that a run may tag
every mapping with the event that made it.
-/
namespace AllocCounter.ParseMmapLog

structure MMapAllocation (S : Type*) where
  originalStart : ℤ
  originalSize : ℤ
  stackTraceId : S
deriving DecidableEq, Repr

structure MemorySlice (S : Type*) where
  start : ℤ
  size : ℤ
  allocation : MMapAllocation S
deriving DecidableEq, Repr

variable {S : Type*}

/-- `end()` in the source. -/
def MemorySlice.stop (s : MemorySlice S) : ℤ := s.start + s.size

def MemorySlice.extent (s : MemorySlice S) : Extent ℤ (MMapAllocation S) :=
  ⟨s.start, s.stop, s.allocation⟩

structure MemoryMap (S : Type*) where
  dict : SortedMap ℤ (MemorySlice S)

namespace MemoryMap

def empty : MemoryMap S := ⟨.empty⟩

end MemoryMap

/-- The entry with the greatest key less than `key`: the one just before the
position where `bisect_left` would insert `key`. -/
def greatestLessThan {V : Type*} (dict : SortedMap ℤ V) (key : ℤ) : Option (ℤ × V) :=
  let index := dict.lowerBound key
  if index = 0 then none else dict.entries[index - 1]?

namespace MemoryMap

/-- `_split_at` in the source. -/
def splitAt (m : MemoryMap S) (pointer : ℤ) : Option (MemoryMap S) :=
  match greatestLessThan m.dict pointer with
  | none => some m
  | some (key, candidate) =>
      if ¬ candidate.start < pointer then none
      else if pointer < candidate.stop then
        if (m.dict.find? pointer).isSome then none
        else
          let leftSideSize := pointer - candidate.start
          let rightSideSize := candidate.stop - pointer
          some ⟨(m.dict.set key { candidate with size := leftSideSize }).set pointer
            ⟨pointer, rightSideSize, candidate.allocation⟩⟩
      else some m

/-- Returns the erased slices and the map that is left. -/
def registerUnmap (m : MemoryMap S) (start size : ℤ) :
    Option (List (MemorySlice S) × MemoryMap S) :=
  let stop := start + size
  (m.splitAt start).bind fun m₁ => (m₁.splitAt stop).bind fun m₂ =>
    (m₂.dict.pop (m₂.dict.keysBetween start stop)).map fun r => (r.1, ⟨r.2⟩)

/-- Returns the added slice, the erased slices and the new map. -/
def registerMap (m : MemoryMap S) (allocation : MMapAllocation S) :
    Option (MemorySlice S × List (MemorySlice S) × MemoryMap S) :=
  let start := allocation.originalStart
  (m.registerUnmap allocation.originalStart allocation.originalSize).map fun r =>
    let addedSlice : MemorySlice S := ⟨start, allocation.originalSize, allocation⟩
    (addedSlice, r.1, ⟨r.2.dict.set start addedSlice⟩)

def extents (m : MemoryMap S) : List (Extent ℤ (MMapAllocation S)) :=
  m.dict.extents MemorySlice.extent

/-- The allocation whose slice contains an address. -/
def owner (m : MemoryMap S) (x : ℤ) : Option (MMapAllocation S) := Extent.ownerOf m.extents x

/-- Every key is the start of its slice; the slices, which are listed in key
order, are not empty and none reaches into a later one. -/
structure WellFormed (m : MemoryMap S) : Prop where
  key_eq : ∀ e ∈ m.dict.entries, e.1 = e.2.start
  size_pos : ∀ e ∈ m.dict.entries, 0 < e.2.size
  disjoint : m.dict.entries.Pairwise fun a b => a.2.stop ≤ b.2.start

theorem extent_nonempty {s : MemorySlice S} : s.extent.start < s.extent.stop ↔ 0 < s.size := by
  simp only [MemorySlice.extent, MemorySlice.stop]
  omega

theorem wellFormed_iff {m : MemoryMap S} :
    m.WellFormed ↔ m.dict.Partition MemorySlice.extent := by
  constructor
  · intro h
    refine ⟨h.key_eq, ?_, List.pairwise_map.mpr h.disjoint⟩
    exact List.forall_mem_map.mpr fun e he => extent_nonempty.mpr (h.size_pos e he)
  · intro h
    refine ⟨h.keyed, ?_, List.pairwise_map.mp h.tiled.2⟩
    exact fun e he => extent_nonempty.mp (List.forall_mem_map.mp h.tiled.1 e he)

theorem WellFormed.tiled {m : MemoryMap S} (h : m.WellFormed) : Extent.Tiled m.extents :=
  (wellFormed_iff.mp h).tiled

theorem wellFormed_empty : (empty : MemoryMap S).WellFormed :=
  wellFormed_iff.mpr SortedMap.partition_empty

/-- The extents of a well-formed map determine it. -/
theorem WellFormed.eq_of_extents {m n : MemoryMap S} (hm : m.WellFormed) (hn : n.WellFormed)
    (h : m.extents = n.extents) : m = n := by
  have hback : ∀ k : MemoryMap S, k.WellFormed → k.extents.map (fun e =>
      (e.start, (⟨e.start, e.stop - e.start, e.owner⟩ : MemorySlice S))) = k.dict.entries := by
    intro k hk
    rw [extents, SortedMap.extents, List.map_map]
    refine (List.map_congr_left fun e he => ?_).trans (List.map_id _)
    obtain ⟨key, s⟩ := e
    have hkey : key = s.start := hk.key_eq _ he
    simp [MemorySlice.extent, MemorySlice.stop, hkey]
  have hentries : m.dict.entries = n.dict.entries := by rw [← hback m hm, ← hback n hn, h]
  cases m
  cases n
  exact congrArg MemoryMap.mk (SortedMap.ext hentries)

/-- The search returns the last of the entries before the pointer. -/
theorem greatestLessThan_eq {V : Type*} {d : SortedMap ℤ V} {p : ℤ} {l r : List (ℤ × V)}
    (h : d.entries = l ++ r) (hl : ∀ e ∈ l, e.1 < p) (hr : ∀ e ∈ r, p ≤ e.1) :
    greatestLessThan d p = l.getLast? := by
  unfold greatestLessThan
  rw [SortedMap.lowerBound_eq h hl hr, h]
  cases l with
  | nil => rfl
  | cons e l =>
      simp only [List.length_cons, Nat.add_eq_zero_iff, Nat.one_ne_zero, and_false, if_false]
      rw [List.getElem?_append_left (by simp), List.getLast?_eq_getElem?]
      simp

/-- Splitting inside the last slice that starts before the pointer. -/
theorem splitAt_inside {m : MemoryMap S} (hm : m.WellFormed) {p : ℤ}
    {l r : List (ℤ × MemorySlice S)} {key : ℤ} {c : MemorySlice S}
    (h : m.dict.entries = l ++ (key, c) :: r) (hlo : c.start < p) (hhi : p < c.stop)
    (hsearch : greatestLessThan m.dict p = some (key, c)) :
    ∃ m', m.splitAt p = some m' ∧ m'.WellFormed ∧
      m'.extents = m.extents.flatMap (Extent.splitAt p) := by
  have hp := wellFormed_iff.mp hm
  obtain ⟨hkey, -, -, hr⟩ := hp.around h
  have hl := (SortedMap.keys_around h).1
  let left : MemorySlice S := { c with size := p - c.start }
  let right : MemorySlice S := ⟨p, c.stop - p, c.allocation⟩
  -- every later slice starts at or after the end of this one, hence after the pointer
  have hr' : ∀ e ∈ r, p < e.1 := by
    intro e he
    rw [hp.keyed e (by simp [h, he])]
    exact hhi.trans_le (hr e he)
  have hentries : ((m.dict.set key left).set p right).entries =
      l ++ (key, left) :: (p, right) :: r := by
    rw [SortedMap.set_entries, SortedMap.set_entries, h, SortedMap.place_append_cons _ _ _ _ hl,
      List.append_cons, SortedMap.place_append, ← List.append_cons]
    · intro e he
      rcases List.mem_append.mp he with he | he
      · exact (hl e he).trans (hkey ▸ hlo)
      · exact List.mem_singleton.mp he ▸ hkey ▸ hlo
    · exact hr'
  have hfind : m.dict.find? p = none := by
    refine Option.eq_none_iff_forall_ne_some.mpr fun v hv => ?_
    have hmem := SortedMap.find?_eq_some.mp hv
    rw [h] at hmem
    rcases List.mem_append.mp hmem with hmem | hmem
    · exact absurd ((hl _ hmem).trans (hkey ▸ hlo)) (lt_irrefl p)
    · rcases List.mem_cons.mp hmem with heq | hmem
      · exact absurd ((Prod.mk.inj heq).1.trans hkey) hlo.ne'
      · exact absurd (hr' _ hmem) (lt_irrefl p)
  have ⟨hpart, hext⟩ := hp.split left right h hlo hhi
    (by simp [left, MemorySlice.extent, MemorySlice.stop])
    (by simp [right, MemorySlice.extent, MemorySlice.stop]) hentries
  refine ⟨⟨(m.dict.set key left).set p right⟩, ?_, wellFormed_iff.mpr hpart, hext⟩
  simp [splitAt, hsearch, hlo, hhi, hfind, left, right]

/-- Splitting a well-formed map fails no assertion and splits the slice, if any,
that has the pointer strictly inside. -/
theorem splitAt_spec {m : MemoryMap S} (hm : m.WellFormed) (p : ℤ) :
    ∃ m', m.splitAt p = some m' ∧ m'.WellFormed ∧
      m'.extents = m.extents.flatMap (Extent.splitAt p) := by
  have hp := wellFormed_iff.mp hm
  obtain ⟨l, r, hlr, hl, hr⟩ := m.dict.exists_cut (· < p) fun a b hab hb => hab.trans hb
  replace hr : ∀ e ∈ r, p ≤ e.1 := fun e he => not_lt.mp (hr e he)
  have hsearch := greatestLessThan_eq hlr hl hr
  rcases l.eq_nil_or_concat' with rfl | ⟨l, ⟨key, c⟩, rfl⟩
  · refine ⟨m, by simp [splitAt, hsearch], hm, ?_⟩
    refine (SortedMap.Partition.splitAt_outside fun e he => .inl ?_).symm
    rw [← hp.keyed e he]
    exact hr e (by simpa [hlr] using he)
  · rw [List.append_assoc, List.singleton_append] at hlr
    rw [List.getLast?_concat] at hsearch
    have hkey : key = c.start := (hp.around hlr).1
    have hlo : c.start < p := hkey ▸ hl (key, c) (by simp)
    by_cases hhi : p < c.stop
    · exact splitAt_inside hm hlr hlo hhi hsearch
    · refine ⟨m, by simp [splitAt, hsearch, hlo, hhi], hm, ?_⟩
      exact (SortedMap.Partition.splitAt_outside (hp.outside_of_last hlr (.inr (not_lt.mp hhi))
        (hkey ▸ hlo.le) hr)).symm

/-- On a well-formed map `registerUnmap` cuts the range out and returns what it
cut off. -/
theorem registerUnmap_spec {m : MemoryMap S} (hm : m.WellFormed) (start : ℤ) {size : ℤ}
    (hsize : 0 < size) :
    ∃ erased m', m.registerUnmap start size = some (erased, m') ∧ m'.WellFormed ∧
      m'.extents = Extent.cut start (start + size) m.extents ∧
      erased.map MemorySlice.extent = Extent.cutOff start (start + size) m.extents := by
  have hle : start ≤ start + size := by omega
  obtain ⟨m₁, hs₁, hm₁, he₁⟩ := splitAt_spec hm start
  obtain ⟨m₂, hs₂, hm₂, he₂⟩ := splitAt_spec hm₁ (start + size)
  have hp₂ := wellFormed_iff.mp hm₂
  obtain ⟨hout, hin⟩ := (wellFormed_iff.mp hm).cut hle he₁ he₂ hp₂
  refine ⟨(m₂.dict.entries.filter fun e => start ≤ e.1 ∧ e.1 < start + size).map Prod.snd,
    ⟨⟨_, m₂.dict.filter_sorted fun e => ¬ (start ≤ e.1 ∧ e.1 < start + size)⟩⟩, ?_,
    wellFormed_iff.mpr (hp₂.filter _), hout, ?_⟩
  · simp only [registerUnmap, hs₁, hs₂, Option.bind_some, SortedMap.pop_keysBetween _ hle]
    rfl
  · rw [List.map_map]
    exact hin

/-- On a well-formed map `registerMap` cuts the range out and gives it to the
new allocation. -/
theorem registerMap_spec {m : MemoryMap S} (hm : m.WellFormed) (a : MMapAllocation S)
    (hsize : 0 < a.originalSize) :
    ∃ erased m', m.registerMap a = some (⟨a.originalStart, a.originalSize, a⟩, erased, m') ∧
      m'.WellFormed ∧
      m'.extents = Extent.insert ⟨a.originalStart, a.originalStart + a.originalSize, a⟩
        (Extent.cut a.originalStart (a.originalStart + a.originalSize) m.extents) ∧
      (∀ x, m'.owner x = if a.originalStart ≤ x ∧ x < a.originalStart + a.originalSize
        then some a else m.owner x) ∧
      erased.map MemorySlice.extent =
        Extent.cutOff a.originalStart (a.originalStart + a.originalSize) m.extents := by
  obtain ⟨erased, m₁, hu, hm₁, he₁, hin⟩ := registerUnmap_spec hm a.originalStart hsize
  let added : MemorySlice S := ⟨a.originalStart, a.originalSize, a⟩
  have ht := hm.tiled
  have hle : a.originalStart ≤ a.originalStart + a.originalSize := by omega
  have hgap : ∀ e ∈ m₁.dict.entries, e.2.extent.stop ≤ added.extent.start ∨
      added.extent.stop ≤ e.2.extent.start := by
    intro e he
    have hmem : e.2.extent ∈ m₁.extents := List.mem_map_of_mem (f := fun e => e.2.extent) he
    rw [he₁] at hmem
    obtain ⟨f, -, hf⟩ := List.mem_flatMap.mp hmem
    rcases List.mem_append.mp hf with hf | hf
    · exact .inl (by rw [(Extent.mem_before.mp hf).2]; exact min_le_right _ _)
    · exact .inr (by rw [(Extent.mem_after.mp hf).2]; exact le_max_right _ _)
  obtain ⟨hpart, hext, howner⟩ := (wellFormed_iff.mp hm₁).insert (v := added) rfl
    (extent_nonempty.mpr hsize) hgap _ (SortedMap.set_entries m₁.dict a.originalStart added)
  refine ⟨erased, ⟨m₁.dict.set a.originalStart added⟩, ?_, wellFormed_iff.mpr hpart, ?_, ?_, hin⟩
  · simp [registerMap, hu, added]
  · rw [← he₁]
    exact hext
  · intro x
    rw [owner, extents, howner x]
    change (if added.extent.Covers x then some a else Extent.ownerOf m₁.extents x) = _
    rw [he₁, ht.ownerOf_cut hle]
    have hc : added.extent.Covers x ↔
        a.originalStart ≤ x ∧ x < a.originalStart + a.originalSize := Iff.rfl
    simp only [hc]
    split_ifs <;> rfl

/-- One call of `register_map` on a new allocation or of `register_unmap`. -/
inductive Call (S : Type*) where
  | map (allocation : MMapAllocation S)
  | unmap (start size : ℤ)

namespace Call

def start : Call S → ℤ
  | .map a => a.originalStart
  | .unmap start _ => start

def size : Call S → ℤ
  | .map a => a.originalSize
  | .unmap _ size => size

def Covers (c : Call S) (x : ℤ) : Prop := c.start ≤ x ∧ x < c.start + c.size

instance (c : Call S) (x : ℤ) : Decidable (c.Covers x) := inferInstanceAs (Decidable (_ ∧ _))

/-- The owner a call leaves behind on its range. -/
def owner : Call S → Option (MMapAllocation S)
  | .map a => some a
  | .unmap _ _ => none

end Call

/-- The owner of an address after a sequence of calls: the last call whose range
covers the address decides. -/
def lastOwner (cs : List (Call S)) (x : ℤ) : Option (MMapAllocation S) :=
  (cs.reverse.find? fun c => c.Covers x).bind Call.owner

theorem lastOwner_concat (cs : List (Call S)) (c : Call S) (x : ℤ) :
    lastOwner (cs ++ [c]) x = if c.Covers x then c.owner else lastOwner cs x := by
  unfold lastOwner
  rw [List.reverse_append]
  split_ifs with h <;> simp [h]

/-- The erased slices and the new map. -/
def apply (m : MemoryMap S) : Call S → Option (List (MemorySlice S) × MemoryMap S)
  | .map a => (m.registerMap a).map fun r => (r.2.1, r.2.2)
  | .unmap start size => m.registerUnmap start size

def run (cs : List (Call S)) : Option (MemoryMap S) :=
  cs.foldlM (fun m c => (m.apply c).map Prod.snd) empty

/-- The erased slices ascend, are not empty and tile exactly the owned part of
the range, with the owners it had. -/
structure Tiles (m : MemoryMap S) (start size : ℤ) (erased : List (MemorySlice S)) : Prop where
  size_pos : ∀ s ∈ erased, 0 < s.size
  ascending : erased.Pairwise fun a b => a.stop ≤ b.start
  owner_eq : ∀ x, Extent.ownerOf (erased.map MemorySlice.extent) x =
    if start ≤ x ∧ x < start + size then m.owner x else none
  sum_le : (erased.map MemorySlice.size).sum ≤ size

theorem tiles_of_cutOff {m : MemoryMap S} (hm : m.WellFormed) {start size : ℤ} (hsize : 0 < size)
    {erased : List (MemorySlice S)}
    (h : erased.map MemorySlice.extent = Extent.cutOff start (start + size) m.extents) :
    m.Tiles start size erased := by
  have ht : Extent.Tiled (erased.map MemorySlice.extent) := h ▸ hm.tiled.cutOff _ _
  refine ⟨?_, List.pairwise_map.mp ht.2, ?_, ?_⟩
  · exact fun s hs => extent_nonempty.mp (List.forall_mem_map.mp ht.1 s hs)
  · intro x
    rw [h]
    exact hm.tiled.ownerOf_cutOff _ _ x
  · have hsum := ht.sum_length_le start (start + size) (by omega)
      fun e he => Extent.cutOff_inside (h ▸ he)
    have hlen : ((erased.map MemorySlice.extent).map fun e => e.stop - e.start) =
        erased.map MemorySlice.size := by
      rw [List.map_map]
      refine List.map_congr_left fun s _ => ?_
      simp only [Function.comp_apply, MemorySlice.extent, MemorySlice.stop]
      omega
    rw [hlen] at hsum
    omega

/-- One call on a well-formed map. -/
theorem apply_spec {m : MemoryMap S} (hm : m.WellFormed) (c : Call S) (hc : 0 < c.size) :
    ∃ erased m', m.apply c = some (erased, m') ∧ m'.WellFormed ∧ m.Tiles c.start c.size erased ∧
      ∀ x, m'.owner x = if c.Covers x then c.owner else m.owner x := by
  cases c with
  | map a =>
      obtain ⟨erased, m', h, hm', -, howner, hin⟩ := registerMap_spec hm a hc
      exact ⟨erased, m', by simp [apply, h], hm', tiles_of_cutOff hm hc hin, howner⟩
  | unmap start size =>
      obtain ⟨erased, m', h, hm', hext, hin⟩ := registerUnmap_spec hm start hc
      refine ⟨erased, m', h, hm', tiles_of_cutOff hm hc hin, ?_⟩
      intro x
      rw [owner, hext]
      exact hm.tiled.ownerOf_cut (le_add_of_nonneg_right (le_of_lt hc)) x

theorem run_concat (cs : List (Call S)) (c : Call S) :
    run (cs ++ [c]) = (run cs).bind fun m => (m.apply c).map Prod.snd := by
  simp only [run, List.foldlM_append, List.foldlM_cons, List.foldlM_nil, bind_pure]
  rfl

/-- Every run on positive sizes succeeds and refines the last-call ownership. -/
theorem run_spec (cs : List (Call S)) (hcs : ∀ c ∈ cs, 0 < c.size) :
    ∃ m, run cs = some m ∧ m.WellFormed ∧ ∀ x, m.owner x = lastOwner cs x := by
  induction cs using List.reverseRecOn with
  | nil => exact ⟨empty, rfl, wellFormed_empty, fun x => rfl⟩
  | append_singleton cs c ih =>
      obtain ⟨m, hrun, hm, howner⟩ := ih fun d hd => hcs d (List.mem_append_left _ hd)
      obtain ⟨erased, m', happly, hm', -, howner'⟩ :=
        apply_spec hm c (hcs c (List.mem_append_right _ List.mem_cons_self))
      refine ⟨m', by simp [run_concat, hrun, happly], hm', ?_⟩
      intro x
      rw [howner', lastOwner_concat, howner]

/-- Any sequence of calls with positive sizes, overlapping or not, followed by
one more call: no assertion fails, the maps before and after it are well formed
and owned by the last covering call, and the erased slices tile what the call
takes away. -/
theorem calls_refine_ownership (cs : List (Call S)) (c : Call S)
    (hcs : ∀ d ∈ cs ++ [c], 0 < d.size) :
    ∃ m erased m', run cs = some m ∧ m.apply c = some (erased, m') ∧
      run (cs ++ [c]) = some m' ∧ m.WellFormed ∧ m'.WellFormed ∧
      (∀ x, m.owner x = lastOwner cs x) ∧ (∀ x, m'.owner x = lastOwner (cs ++ [c]) x) ∧
      m.Tiles c.start c.size erased := by
  obtain ⟨m, hrun, hm, howner⟩ := run_spec cs fun d hd => hcs d (List.mem_append_left _ hd)
  obtain ⟨erased, m', happly, hm', htiles, howner'⟩ :=
    apply_spec hm c (hcs c (List.mem_append_right _ List.mem_cons_self))
  refine ⟨m, erased, m', hrun, happly, by simp [run_concat, hrun, happly], hm, hm', howner, ?_,
    htiles⟩
  intro x
  rw [howner', lastOwner_concat, howner]

/-- A mapping at 10, a second one over its middle, and an unmapping across both. -/
theorem calls_refine_ownership_overlap :
    ∃ m erased m', run [.map ⟨10, 20, 1⟩, .map ⟨15, 5, 2⟩] = some m ∧
      m.apply (.unmap 12 5) = some (erased, m') ∧
      run [.map ⟨10, 20, 1⟩, .map ⟨15, 5, 2⟩, .unmap 12 5] = some m' ∧
      m.WellFormed ∧ m'.WellFormed ∧
      (∀ x, m.owner x = lastOwner [.map ⟨10, 20, 1⟩, .map ⟨15, 5, 2⟩] x) ∧
      (∀ x, m'.owner x = lastOwner [.map ⟨10, 20, 1⟩, .map ⟨15, 5, 2⟩, .unmap 12 5] x) ∧
      m.Tiles 12 5 erased :=
  calls_refine_ownership (S := ℕ) [.map ⟨10, 20, 1⟩, .map ⟨15, 5, 2⟩] (.unmap 12 5)
    (by simp [Call.size])

example : (run [.map ⟨10, 20, 1⟩, .map ⟨15, 5, 2⟩, .unmap 12 5]).map
    (fun m => m.dict.entries.map fun e => (e.1, e.2.size, e.2.allocation.stackTraceId)) =
      some [(10, 2, 1), (17, 3, 2), (20, 10, 1)] := by decide

end MemoryMap
end AllocCounter.ParseMmapLog
