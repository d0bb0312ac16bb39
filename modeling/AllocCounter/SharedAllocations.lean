import AllocCounter.MapAgreement
import AllocCounter.MmapWrapper

/-!
# Shared allocations and their stack traces

The memory map with the use count of every allocation object. An object is
destroyed, and its stack trace handle with it, when the last slice that points to
it goes. `handles` are the handles that were constructed or copied and are not
destroyed yet, and `moments` has the table and these handles after each
construction, copy and destruction. The order in which `std::map` destroys the
slices of an erased range is a parameter.
-/
namespace AllocCounter.MmapCounter

open MapAgreement

/-- What the slices point to, in key order. -/
def MemoryMap.pointers {T : Type*} (m : MemoryMap T) : List (AllocationPointer T) :=
  m.slices.entries.map fun e => e.2.allocation

structure SharedMap where
  memoryMap : MemoryMap InternedStackTrace := .empty
  allocationUse : ℕ → ℕ := fun _ => 0
  interned : InternedStackTraces := {}
  handles : List InternedStackTrace := []
  moments : List (InternedStackTraces × List InternedStackTrace) := []

namespace SharedMap

def note (s : SharedMap) (interned : InternedStackTraces) (handles : List InternedStackTrace) :
    SharedMap :=
  { s with interned := interned, handles := handles, moments := s.moments ++ [(interned, handles)] }

def construct (s : SharedMap) (stackTrace : StackTrace) : InternedStackTrace × SharedMap :=
  let (handle, interned) := s.interned.construct stackTrace
  (handle, s.note interned (handle :: s.handles))

def copy (s : SharedMap) (handle : InternedStackTrace) : SharedMap :=
  s.note (s.interned.copy handle) (handle :: s.handles)

def destroy (s : SharedMap) (handle : InternedStackTrace) : Option SharedMap :=
  (s.interned.destroy handle).map fun interned => s.note interned (s.handles.erase handle)

/-- A `shared_ptr` to an allocation is copied. -/
def share (s : SharedMap) (p : AllocationPointer InternedStackTrace) : SharedMap :=
  { s with
    allocationUse := Function.update s.allocationUse p.object (s.allocationUse p.object + 1) }

/-- A `shared_ptr` to an allocation is destroyed. -/
def release (s : SharedMap) (p : AllocationPointer InternedStackTrace) : Option SharedMap :=
  let s := { s with
    allocationUse := Function.update s.allocationUse p.object (s.allocationUse p.object - 1) }
  if s.allocationUse p.object = 0 then s.destroy p.target.stackTrace else some s

def releaseAll (s : SharedMap) (ps : List (AllocationPointer InternedStackTrace)) :
    Option SharedMap :=
  ps.foldlM release s

/-- `make_shared<MMapAllocation>`. Moving the allocation copies its handle. -/
def makeShared (s : SharedMap) (allocation : MMapAllocation InternedStackTrace) :
    AllocationPointer InternedStackTrace × SharedMap :=
  let object := s.memoryMap.made
  (⟨object, allocation⟩,
    { s.copy allocation.stackTrace with
      memoryMap := { s.memoryMap with made := object + 1 }
      allocationUse := Function.update s.allocationUse object 1 })

/-- The slice goes into the map, or with the temporaries if its key is taken. -/
def insert (s : SharedMap) (key : ℤ) (slice : MemorySlice InternedStackTrace) :
    Option SharedMap :=
  if (s.memoryMap.slices.find? key).isSome then s.release slice.allocation
  else some { s with
    memoryMap := { s.memoryMap with slices := s.memoryMap.slices.insertNew key slice } }

def registerMap (s : SharedMap) (allocation : MMapAllocation InternedStackTrace) :
    Option SharedMap :=
  let start := allocation.originalStart
  let size := allocation.originalSize
  let (pointer, s) := s.makeShared allocation
  s.insert start ⟨start, size, pointer⟩

section

variable (t : Target)

def splitAt (s : SharedMap) (pointer : ℤ) : Option SharedMap :=
  let iterNext := s.memoryMap.slices.upperBound pointer
  if iterNext = 0 then some s
  else
    let iter := iterNext - 1
    match s.memoryMap.slices.entries[iter]? with
    | none => some s
    | some (key, slice) =>
        if ¬ slice.start ≤ pointer then none
        else if pointer = slice.start ∨ slice.stop t ≤ pointer then some s
        else
          let newSliceEnd := slice.stop t
          let shrunk := { slice with size := t.sizeT (pointer - slice.start) }
          let s := { s with
            memoryMap := { s.memoryMap with slices := s.memoryMap.slices.set key shrunk } }
          (s.share slice.allocation).insert pointer
            ⟨pointer, t.sizeT (newSliceEnd - pointer), slice.allocation⟩

variable (order : List (AllocationPointer InternedStackTrace) →
  List (AllocationPointer InternedStackTrace))

/-- `std::map::erase` of a range. -/
def eraseRange (s : SharedMap) (first last : ℕ) : Option SharedMap :=
  (s.memoryMap.slices.eraseRange first last).bind fun slices =>
    { s with memoryMap := { s.memoryMap with slices := slices } }.releaseAll
      (order ((s.memoryMap.pointers.take last).drop first))

def registerUnmap (s : SharedMap) (start : ℤ) (size : ℕ) : Option (Bool × SharedMap) :=
  let stop := t.intptr (start + size)
  (s.splitAt t start).bind fun s => (s.splitAt t stop).bind fun s =>
    let eraseStart := s.memoryMap.slices.lowerBound start
    let eraseEnd := s.memoryMap.slices.lowerBound stop
    (s.eraseRange order eraseStart eraseEnd).map fun s => (eraseStart != eraseEnd, s)

/-- A registration of `mmap`, from the construction of the local `allocation` to its
destruction, or of `munmap`. -/
def next (s : SharedMap) : MapEvent StackTrace → Option SharedMap
  | .map start size stackTrace =>
      let (handle, s) := s.construct stackTrace
      (s.registerMap ⟨handle, start, size⟩).bind fun s => s.destroy handle
  | .unmap start size => (s.registerUnmap t order start size).map Prod.snd

def run (es : List (MapEvent StackTrace)) : Option SharedMap := es.foldlM (next t order) {}

end

/-- The `shared_ptr`s to allocations are those in `live`, the handles those of the
allocation objects behind them and the ones in `locals`. -/
structure Tally (s : SharedMap) (live : List (AllocationPointer InternedStackTrace))
    (locals : List InternedStackTrace) : Prop where
  object_lt : ∀ p ∈ live, p.object < s.memoryMap.made
  same : ∀ p ∈ live, ∀ q ∈ live, p.object = q.object → p = q
  use_eq : ∀ object, s.allocationUse object = live.countP fun p => p.object = object
  handles : s.handles.Perm (locals ++ live.dedup.map fun p => p.target.stackTrace)
  counted : s.interned.Counted s.handles
  moments : ∀ m ∈ s.moments, m.1.Counted m.2
  key_eq : ∀ e ∈ s.memoryMap.slices.entries, e.1 = e.2.start

variable {s : SharedMap} {live live' : List (AllocationPointer InternedStackTrace)}
  {locals : List InternedStackTrace} {handle : InternedStackTrace}
  {p : AllocationPointer InternedStackTrace}

theorem tally_empty : Tally {} [] [] where
  object_lt := by simp
  same := by simp
  use_eq := by simp
  handles := .nil
  counted := InternedStackTraces.counted_empty
  moments := by simp
  key_eq := by simp [MemoryMap.empty]

theorem Tally.perm (h : s.Tally live locals) (hp : live.Perm live') : s.Tally live' locals where
  object_lt := fun p hmem => h.object_lt p (hp.mem_iff.mpr hmem)
  same := fun p hmem q hmem' => h.same p (hp.mem_iff.mpr hmem) q (hp.mem_iff.mpr hmem')
  use_eq := fun object => (h.use_eq object).trans (hp.countP_eq _)
  handles := h.handles.trans ((hp.dedup.map _).append_left locals)
  counted := h.counted
  moments := h.moments
  key_eq := h.key_eq

theorem forall_moments {m : InternedStackTraces × List InternedStackTrace}
    (h : ∀ m ∈ s.moments, m.1.Counted m.2) (hm : m.1.Counted m.2) :
    ∀ m' ∈ s.moments ++ [m], m'.1.Counted m'.2 := by
  intro m' hm'
  rcases List.mem_append.mp hm' with hm' | hm'
  · exact h m' hm'
  · exact List.mem_singleton.mp hm' ▸ hm

theorem Tally.construct (h : s.Tally live locals) (stackTrace : StackTrace) :
    (s.construct stackTrace).2.Tally live ((s.construct stackTrace).1 :: locals) where
  object_lt := h.object_lt
  same := h.same
  use_eq := h.use_eq
  handles := h.handles.cons _
  counted := h.counted.construct stackTrace
  moments := forall_moments h.moments (h.counted.construct stackTrace)
  key_eq := h.key_eq

/-- Destroying a handle that is not in an allocation. -/
theorem Tally.destroy (h : s.Tally live (handle :: locals)) :
    ∃ s', s.destroy handle = some s' ∧ s'.Tally live locals ∧ s'.memoryMap = s.memoryMap ∧
      s'.interned.made = s.interned.made := by
  have hperm : s.handles.Perm (handle :: s.handles.erase handle) :=
    List.perm_cons_erase (h.handles.mem_iff.mpr (by simp))
  obtain ⟨interned, hdestroy, hcounted, hmade⟩ := (h.counted.perm hperm).destroy
  refine ⟨s.note interned (s.handles.erase handle), by rw [SharedMap.destroy, hdestroy]; rfl, ?_,
    rfl, hmade⟩
  exact
    { object_lt := h.object_lt
      same := h.same
      use_eq := h.use_eq
      handles := (List.perm_cons _).mp (hperm.symm.trans h.handles)
      counted := hcounted
      moments := forall_moments h.moments hcounted
      key_eq := h.key_eq }

/-- The use count of an object goes down by one. -/
theorem Tally.use_release (h : s.Tally (p :: live) locals) (object : ℕ) :
    Function.update s.allocationUse p.object (s.allocationUse p.object - 1) object =
      live.countP fun q => q.object = object := by
  have huse := h.use_eq object
  rw [List.countP_cons] at huse
  by_cases hobject : p.object = object
  · subst hobject
    rw [Function.update_self, huse, if_pos (decide_eq_true rfl), Nat.add_sub_cancel]
  · rw [Function.update_of_ne (Ne.symm hobject), huse]
    simp [hobject]

/-- Destroying a `shared_ptr` destroys the allocation object with the last of them. -/
theorem Tally.release (h : s.Tally (p :: live) locals) :
    ∃ s', s.release p = some s' ∧ s'.Tally live locals ∧ s'.memoryMap = s.memoryMap ∧
      s'.interned.made = s.interned.made := by
  have huse := h.use_release
  have hcount := huse p.object
  rw [Function.update_self] at hcount
  have hkept : ∀ q ∈ live, q ∈ p :: live := fun q hq => List.mem_cons_of_mem _ hq
  let s₁ : SharedMap := { s with
    allocationUse := Function.update s.allocationUse p.object (s.allocationUse p.object - 1) }
  by_cases hmem : p ∈ live
  · have hpos : s.allocationUse p.object - 1 ≠ 0 := by
      rw [hcount]
      exact (List.countP_pos_iff.mpr ⟨p, hmem, by simp⟩).ne'
    refine ⟨s₁, by simp [SharedMap.release, s₁, hpos], ?_, rfl, rfl⟩
    have hhandles := h.handles
    rw [List.dedup_cons_of_mem hmem] at hhandles
    exact
      { object_lt := fun q hq => h.object_lt q (hkept q hq)
        same := fun q hq r hr => h.same q (hkept q hq) r (hkept r hr)
        use_eq := huse
        handles := hhandles
        counted := h.counted
        moments := h.moments
        key_eq := h.key_eq }
  · have hzero : s.allocationUse p.object - 1 = 0 := by
      rw [hcount, List.countP_eq_zero]
      intro q hq hobject
      have heq := h.same q (hkept q hq) p List.mem_cons_self (of_decide_eq_true hobject)
      exact hmem (heq ▸ hq)
    have hhandles := h.handles
    rw [List.dedup_cons_of_notMem hmem, List.map_cons] at hhandles
    have h₁ : s₁.Tally live (p.target.stackTrace :: locals) :=
      { object_lt := fun q hq => h.object_lt q (hkept q hq)
        same := fun q hq r hr => h.same q (hkept q hq) r (hkept r hr)
        use_eq := huse
        handles := hhandles.trans List.perm_middle
        counted := h.counted
        moments := h.moments
        key_eq := h.key_eq }
    obtain ⟨s', hs', h', hsame⟩ := h₁.destroy
    exact ⟨s', by simpa [SharedMap.release, s₁, hzero] using hs', h', hsame⟩

theorem Tally.releaseAll (ps : List (AllocationPointer InternedStackTrace))
    (h : s.Tally (ps ++ live) locals) :
    ∃ s', s.releaseAll ps = some s' ∧ s'.Tally live locals ∧ s'.memoryMap = s.memoryMap ∧
      s'.interned.made = s.interned.made := by
  induction ps generalizing s with
  | nil => exact ⟨s, rfl, h, rfl, rfl⟩
  | cons p ps ih =>
      obtain ⟨s₁, hs₁, h₁, hmap₁, hmade₁⟩ := h.release
      obtain ⟨s', hs', h', hmap', hmade'⟩ := ih h₁
      refine ⟨s', ?_, h', hmap'.trans hmap₁, hmade'.trans hmade₁⟩
      rw [SharedMap.releaseAll, List.foldlM_cons, hs₁]
      exact hs'

theorem Tally.share (h : s.Tally live locals) (hp : p ∈ live) :
    (s.share p).Tally (p :: live) locals where
  object_lt := fun q hq => (List.mem_cons.mp hq).elim (fun heq => heq ▸ h.object_lt p hp)
    (h.object_lt q)
  same := by
    intro q hq r hr
    have hq' : q ∈ live := (List.mem_cons.mp hq).elim (fun heq => heq ▸ hp) id
    have hr' : r ∈ live := (List.mem_cons.mp hr).elim (fun heq => heq ▸ hp) id
    exact h.same q hq' r hr'
  use_eq := by
    intro object
    have huse := h.use_eq object
    rw [List.countP_cons]
    by_cases hobject : p.object = object
    · subst hobject
      simp [SharedMap.share, huse]
    · simp [SharedMap.share, hobject, Ne.symm hobject, huse]
  handles := by
    rw [List.dedup_cons_of_mem hp]
    exact h.handles
  counted := h.counted
  moments := h.moments
  key_eq := h.key_eq

/-- A new allocation object has a copy of a live handle. -/
theorem Tally.makeShared (h : s.Tally live locals) (a : MMapAllocation InternedStackTrace)
    (ha : a.stackTrace ∈ s.handles) :
    (s.makeShared a).2.Tally ((s.makeShared a).1 :: live) locals := by
  have hnew : ∀ q ∈ live, q.object ≠ s.memoryMap.made := fun q hq => (h.object_lt q hq).ne
  have hnot : (⟨s.memoryMap.made, a⟩ : AllocationPointer InternedStackTrace) ∉ live :=
    fun hmem => hnew _ hmem rfl
  have hcopy := h.counted.copy ha
  refine ⟨?_, ?_, ?_, ?_, hcopy, forall_moments h.moments hcopy, h.key_eq⟩
  · intro q hq
    rcases List.mem_cons.mp hq with rfl | hq
    · exact Nat.lt_succ_self _
    · exact (h.object_lt q hq).trans (Nat.lt_succ_self _)
  · intro q hq r hr hobject
    rcases List.mem_cons.mp hq with rfl | hq <;> rcases List.mem_cons.mp hr with rfl | hr
    · rfl
    · exact absurd hobject.symm (hnew r hr)
    · exact absurd hobject (hnew q hq)
    · exact h.same q hq r hr hobject
  · intro object
    have huse := h.use_eq object
    rw [List.countP_cons]
    by_cases hobject : s.memoryMap.made = object
    · have hzero : live.countP (fun q => q.object = object) = 0 := by
        rw [List.countP_eq_zero]
        exact fun q hq heq => hnew q hq ((of_decide_eq_true heq).trans hobject.symm)
      simp [SharedMap.makeShared, hobject, hzero]
    · simp [SharedMap.makeShared, SharedMap.copy, SharedMap.note, hobject, Ne.symm hobject, huse]
  · have hdedup : ((s.makeShared a).1 :: live).dedup = (s.makeShared a).1 :: live.dedup :=
      List.dedup_cons_of_notMem hnot
    rw [hdedup, List.map_cons]
    exact (h.handles.cons _).trans List.perm_middle.symm

/-- An insertion takes the new pointer or destroys it. -/
theorem Tally.insert {key : ℤ} (slice : MemorySlice InternedStackTrace)
    (h : s.Tally (slice.allocation :: s.memoryMap.pointers) locals) (hkey : key = slice.start) :
    ∃ s', s.insert key slice = some s' ∧ s'.Tally s'.memoryMap.pointers locals ∧
      s'.memoryMap = { s.memoryMap with slices := s.memoryMap.slices.insertNew key slice } ∧
      s'.interned.made = s.interned.made := by
  unfold SharedMap.insert
  rcases s.memoryMap.slices.insertNew_cases key slice with
    ⟨hmem, hsame⟩ | ⟨hnot, l₁, l₂, hold, hnew⟩
  · obtain ⟨s', hs', h', hmap, hmade⟩ := h.release
    exact ⟨s', by rw [if_pos (SortedMap.isSome_find?.mpr hmem), hs'], by rwa [hmap],
      by rw [hmap, hsame], hmade⟩
  · refine ⟨_, if_neg (SortedMap.isSome_find?.not.mpr hnot), ?_, rfl, rfl⟩
    have hperm : (slice.allocation :: s.memoryMap.pointers).Perm
        (MemoryMap.pointers ⟨s.memoryMap.slices.insertNew key slice, s.memoryMap.made⟩) := by
      rw [MemoryMap.pointers, MemoryMap.pointers, hold, hnew, List.map_append, List.map_append,
        List.map_cons]
      exact List.perm_middle.symm
    have h' := h.perm hperm
    refine ⟨h'.object_lt, h'.same, h'.use_eq, h'.handles, h'.counted, h'.moments, ?_⟩
    intro e he
    rcases SortedMap.eq_or_mem_of_mem_place (fun _ => .inl rfl) he with rfl | he
    · exact hkey
    · exact h.key_eq e he

theorem Tally.registerMap (h : s.Tally s.memoryMap.pointers locals)
    (a : MMapAllocation InternedStackTrace) (ha : a.stackTrace ∈ s.handles) :
    ∃ s', s.registerMap a = some s' ∧ s'.Tally s'.memoryMap.pointers locals ∧
      s'.memoryMap = s.memoryMap.registerMap a ∧ s'.interned.made = s.interned.made :=
  Tally.insert ⟨a.originalStart, a.originalSize, ⟨s.memoryMap.made, a⟩⟩ (h.makeShared a ha) rfl

/-- Resizing a slice in its place. -/
theorem Tally.resize (h : s.Tally s.memoryMap.pointers locals)
    {l r : List (ℤ × MemorySlice InternedStackTrace)} {key : ℤ}
    {c : MemorySlice InternedStackTrace} (shrunk : MemorySlice InternedStackTrace)
    (hlr : s.memoryMap.slices.entries = l ++ (key, c) :: r) (hstart : shrunk.start = c.start)
    (hallocation : shrunk.allocation = c.allocation) :
    Tally { s with
        memoryMap := { s.memoryMap with slices := s.memoryMap.slices.set key shrunk } }
      (MemoryMap.pointers { s.memoryMap with slices := s.memoryMap.slices.set key shrunk })
      locals := by
  have hset : (s.memoryMap.slices.set key shrunk).entries = l ++ (key, shrunk) :: r := by
    rw [SortedMap.set_entries, hlr,
      SortedMap.place_append_cons _ _ _ _ (SortedMap.keys_around hlr).1]
  have hpointers : s.memoryMap.pointers = MemoryMap.pointers
      { s.memoryMap with slices := s.memoryMap.slices.set key shrunk } := by
    simp only [MemoryMap.pointers, hlr, hset, List.map_append, List.map_cons, hallocation]
  rw [← hpointers]
  refine ⟨h.object_lt, h.same, h.use_eq, h.handles, h.counted, h.moments, ?_⟩
  intro e he
  rw [hset] at he
  simp only [List.mem_append, List.mem_cons] at he
  rcases he with he | rfl | he
  · exact h.key_eq e (by simp [hlr, he])
  · exact (h.key_eq (key, c) (by simp [hlr])).trans hstart.symm
  · exact h.key_eq e (by simp [hlr, he])

variable (t : Target)

theorem Tally.splitAt (h : s.Tally s.memoryMap.pointers locals) (pointer : ℤ) :
    ∃ s', s.splitAt t pointer = some s' ∧ s'.Tally s'.memoryMap.pointers locals ∧
      s.memoryMap.splitAt t pointer = some s'.memoryMap ∧
      s'.interned.made = s.interned.made := by
  obtain ⟨l, r, hlr, hl, hr⟩ := s.memoryMap.slices.exists_cut (· ≤ pointer)
    fun a b hab hb => hab.le.trans hb
  have hsearch := SortedMap.upperBound_eq hlr hl fun e he => not_le.mp (hr e he)
  rcases l.eq_nil_or_concat' with rfl | ⟨l, ⟨key, c⟩, rfl⟩
  · exact ⟨s, by simp [SharedMap.splitAt, hsearch], h, by simp [MemoryMap.splitAt, hsearch], rfl⟩
  · rw [List.append_assoc, List.singleton_append] at hlr
    have hle : c.start ≤ pointer := h.key_eq (key, c) (by simp [hlr]) ▸ hl (key, c) (by simp)
    have hiter : s.memoryMap.slices.entries[s.memoryMap.slices.upperBound pointer - 1]? =
        some (key, c) := by simp [hsearch, hlr]
    have hne : s.memoryMap.slices.upperBound pointer ≠ 0 := by simp [hsearch]
    simp only [SharedMap.splitAt, MemoryMap.splitAt, hiter, hne, hle, not_true_eq_false, if_false]
    split_ifs with hout
    · exact ⟨s, rfl, h, rfl, rfl⟩
    · let shrunk : MemorySlice InternedStackTrace :=
        { c with size := t.sizeT (pointer - c.start) }
      have h₁ := h.resize shrunk hlr rfl rfl
      have hmem : c.allocation ∈ MemoryMap.pointers
          { s.memoryMap with slices := s.memoryMap.slices.set key shrunk } := by
        refine List.mem_map.mpr ⟨(key, shrunk), ?_, rfl⟩
        rw [SortedMap.set_entries, hlr,
          SortedMap.place_append_cons _ _ _ _ (SortedMap.keys_around hlr).1]
        simp
      obtain ⟨s', hs', h', hmap, hmade⟩ := Tally.insert
        ⟨pointer, t.sizeT (c.stop t - pointer), c.allocation⟩ (h₁.share hmem) rfl
      exact ⟨s', hs', h', congrArg some hmap.symm, hmade⟩

variable {order : List (AllocationPointer InternedStackTrace) →
  List (AllocationPointer InternedStackTrace)}

/-- Erasing a range of slices. -/
theorem Tally.eraseRange (horder : ∀ ps, (order ps).Perm ps)
    (h : s.Tally s.memoryMap.pointers locals) {first last : ℕ}
    {slices : SortedMap ℤ (MemorySlice InternedStackTrace)}
    (hslices : s.memoryMap.slices.eraseRange first last = some slices) :
    ∃ s', s.eraseRange order first last = some s' ∧ s'.Tally s'.memoryMap.pointers locals ∧
      s'.memoryMap = { s.memoryMap with slices := slices } ∧
      s'.interned.made = s.interned.made := by
  obtain ⟨hle, hentries⟩ := SortedMap.eraseRange_eq_some hslices
  let kept : SharedMap := { s with memoryMap := { s.memoryMap with slices := slices } }
  have hperm : s.memoryMap.pointers.Perm
      (order ((s.memoryMap.pointers.take last).drop first) ++ kept.memoryMap.pointers) := by
    have hcut : s.memoryMap.pointers.take first ++
        ((s.memoryMap.pointers.take last).drop first ++ s.memoryMap.pointers.drop last) =
        s.memoryMap.pointers := by
      rw [← List.append_assoc]
      conv_rhs => rw [← List.take_append_drop last s.memoryMap.pointers,
        ← List.take_append_drop first (s.memoryMap.pointers.take last), List.take_take,
        min_eq_left hle]
    have hkept : kept.memoryMap.pointers =
        s.memoryMap.pointers.take first ++ s.memoryMap.pointers.drop last := by
      simp [kept, MemoryMap.pointers, hentries]
    rw [hkept]
    exact (List.Perm.of_eq hcut.symm).trans
      ((List.perm_append_comm_assoc _ _ _).trans ((horder _).symm.append_right _))
  have hkey : ∀ e ∈ slices.entries, e.1 = e.2.start := fun e he =>
    h.key_eq e (SortedMap.mem_of_mem_eraseRange hslices he)
  have h₁ := h.perm hperm
  have h₂ : kept.Tally (order ((s.memoryMap.pointers.take last).drop first) ++
      kept.memoryMap.pointers) locals :=
    ⟨h₁.object_lt, h₁.same, h₁.use_eq, h₁.handles, h₁.counted, h₁.moments, hkey⟩
  obtain ⟨s', hs', h', hmap, hmade⟩ := h₂.releaseAll
  refine ⟨s', ?_, hmap ▸ h', hmap, hmade⟩
  rw [SharedMap.eraseRange, hslices]
  exact hs'

/-- The answer and the slices are those of the map alone. -/
theorem Tally.registerUnmap (horder : ∀ ps, (order ps).Perm ps)
    (h : s.Tally s.memoryMap.pointers locals) {start : ℤ} {size : ℕ} {known : Bool}
    {m : MemoryMap InternedStackTrace}
    (hunmap : s.memoryMap.registerUnmap t start size = some (known, m)) :
    ∃ s', s.registerUnmap t order start size = some (known, s') ∧
      s'.Tally s'.memoryMap.pointers locals ∧ s'.memoryMap = m ∧
      s'.interned.made = s.interned.made := by
  obtain ⟨s₁, hs₁, h₁, hmap₁, hmade₁⟩ := h.splitAt t start
  obtain ⟨s₂, hs₂, h₂, hmap₂, hmade₂⟩ := h₁.splitAt t (t.intptr (start + size))
  simp only [MemoryMap.registerUnmap, hmap₁, hmap₂, Option.bind_some] at hunmap
  obtain ⟨slices, hslices, heq⟩ := Option.map_eq_some_iff.mp hunmap
  obtain ⟨rfl, rfl⟩ := Prod.mk.inj heq
  obtain ⟨s₃, hs₃, h₃, hmap₃, hmade₃⟩ := h₂.eraseRange horder hslices
  refine ⟨s₃, ?_, h₃, hmap₃, hmade₃.trans (hmade₂.trans hmade₁)⟩
  simp only [SharedMap.registerUnmap, hs₁, hs₂, hs₃, Option.bind_some, Option.map_some]

theorem Tally.registerUnmap_isSome (h : s.Tally s.memoryMap.pointers locals) {start : ℤ} {size : ℕ}
    (hle : start ≤ t.intptr (start + size)) :
    ∃ known m, s.memoryMap.registerUnmap t start size = some (known, m) := by
  obtain ⟨s₁, -, h₁, hmap₁, -⟩ := h.splitAt t start
  obtain ⟨s₂, -, -, hmap₂, -⟩ := h₁.splitAt t (t.intptr (start + size))
  obtain ⟨slices, hslices, -⟩ :=
    s₂.memoryMap.slices.eraseRange_of_le (s₂.memoryMap.slices.lowerBound_mono hle)
  simp only [MemoryMap.registerUnmap, hmap₁, hmap₂, hslices, Option.bind_some, Option.map_some]
  exact ⟨_, _, rfl⟩

/-- An unmapped range does not overflow. -/
def InOrder : MapEvent StackTrace → Prop
  | .map _ _ _ => True
  | .unmap start size => start ≤ t.intptr (start + size)

instance (e : MapEvent StackTrace) : Decidable (InOrder t e) := by
  cases e <;> unfold InOrder <;> infer_instance

theorem Tally.next (horder : ∀ ps, (order ps).Perm ps) (h : s.Tally s.memoryMap.pointers [])
    {e : MapEvent StackTrace} (he : InOrder t e) :
    ∃ s', s.next t order e = some s' ∧ s'.Tally s'.memoryMap.pointers [] := by
  cases e with
  | map start size stackTrace =>
      have h₁ := h.construct stackTrace
      obtain ⟨s₂, hs₂, h₂, -⟩ := Tally.registerMap h₁
        ⟨(s.construct stackTrace).1, start, size⟩ List.mem_cons_self
      obtain ⟨s₃, hs₃, h₃, hmap₃, -⟩ := h₂.destroy
      exact ⟨s₃, Option.bind_eq_some_iff.mpr ⟨s₂, hs₂, hs₃⟩, hmap₃ ▸ h₃⟩
  | unmap start size =>
      obtain ⟨known, m, hunmap⟩ := h.registerUnmap_isSome t he
      obtain ⟨s', hs', h', -⟩ := h.registerUnmap t horder hunmap
      exact ⟨s', by rw [SharedMap.next, hs']; rfl, h'⟩

/-- The hashes of the allocations that own at least one slice. -/
def sliceHashes (m : MemoryMap InternedStackTrace) : List UInt64 :=
  m.slices.entries.map fun e => e.2.allocation.target.stackTrace.get.hash

theorem Tally.mem_stackTraces (h : s.Tally s.memoryMap.pointers []) (hash : UInt64) :
    hash ∈ s.interned.stackTraces ↔ hash ∈ sliceHashes s.memoryMap := by
  have hhandles : ∀ h, h ∈ s.handles ↔ ∃ e ∈ s.memoryMap.slices.entries,
      e.2.allocation.target.stackTrace = h := by
    intro handle
    rw [h.handles.mem_iff, List.nil_append]
    simp [MemoryMap.pointers]
  rw [← Finmap.lookup_isSome, Option.isSome_iff_exists, sliceHashes, List.mem_map]
  constructor
  · intro ⟨p, hp⟩
    obtain ⟨handle, hhandle, heq⟩ := h.counted.needed hash p hp
    obtain ⟨e, he, rfl⟩ := (hhandles handle).mp hhandle
    refine ⟨e, he, ?_⟩
    rw [InternedStackTrace.get, heq]
    exact h.counted.hash_eq hash p hp
  · rintro ⟨e, he, rfl⟩
    exact ⟨_, h.counted.held _ ((hhandles _).mpr ⟨e, he, rfl⟩)⟩

end SharedMap
end AllocCounter.MmapCounter
