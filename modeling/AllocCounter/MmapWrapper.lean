import AllocCounter.MemoryMap
import AllocCounter.InternedStackTraces
import Mathlib.Data.NNRat.Defs

/-!
# The mmap wrapper

This is `mmap-counter/wrapper-mmap.cpp` on a 64-bit machine, less the look-up of
the real functions. A call brings the answer of the real function, the reading
of the clock and the stack, as the instruction pointers that the unwinder
yields. The lines of the event log are kept with what is written into them. A
failed assertion is `none`.

Of the arguments of `mmap`, those that only go to the real function are left
out.
-/
namespace AllocCounter.MmapCounter

inductive LogLine where
  | map (time : ℚ≥0) (ret : Address) (len : UInt64) (stackTraceId : ℕ)
  | unmap (time : ℚ≥0) (addr : Address) (length : UInt64)
  | unmapFailed (time : ℚ≥0) (addr : Address) (length : UInt64)
deriving DecidableEq

structure MmapCall where
  inLibrary : Bool
  ret : Address
  len : UInt64
  anonymous : Bool
  time : ℚ≥0
  ips : List Address
deriving DecidableEq

structure MunmapCall where
  inLibrary : Bool
  addr : Address
  length : UInt64
  succeeds : Bool
  time : ℚ≥0
deriving DecidableEq

inductive Call where
  | mmap (call : MmapCall)
  | munmap (call : MunmapCall)
deriving DecidableEq

/-- The stack that `InternedStackTrace` captures. -/
def MmapCall.stackTrace (c : MmapCall) : StackTrace := .capture 0 c.ips

/-- The call gets under the lock. -/
def MmapCall.Registers (c : MmapCall) : Prop :=
  c.inLibrary = false ∧ c.ret ≠ 0 ∧ c.anonymous = true

instance (c : MmapCall) : Decidable c.Registers := inferInstanceAs (Decidable (_ ∧ _ ∧ _))

/-- `reinterpret_cast<intptr_t>`. -/
def toIntptr (pointer : Address) : ℤ := Target.lp64.intptr pointer.toNat

section

variable (pageSize : UInt64)

def roundUpToPageMultiple (size : UInt64) : UInt32 :=
  ((size + (pageSize - 1)) &&& ~~~(pageSize - 1)).toUInt32

structure Wrapper where
  memoryMap : MemoryMap InternedStackTrace := .empty
  internedStackTraces : InternedStackTraces := {}
  knownStackTraceHashToId : UnorderedMap UInt64 ℕ := ∅
  stackLog : List (ℕ × StackTrace) := []
  eventLog : List LogLine := []

/-- The allocation objects that some slice points to, in the order in which the
last of their slices come. -/
def MemoryMap.allocations {T : Type*} [DecidableEq T] (m : MemoryMap T) :
    List (AllocationPointer T) :=
  (m.slices.entries.map fun e => e.2.allocation).dedup

namespace Wrapper

/-- The id of a stack trace, and whether it is new. -/
def getOrAssignStackId (w : Wrapper) (stackTrace : StackTrace) : (ℕ × Bool) × Wrapper :=
  match w.knownStackTraceHashToId.lookup stackTrace.hash with
  | some id => ((id, false), w)
  | none =>
      let id := UnorderedMap.size w.knownStackTraceHashToId + 1
      ((id, true),
        { w with
          knownStackTraceHashToId := w.knownStackTraceHashToId.insert stackTrace.hash id })

/-- The new map takes the place of the old one. The allocation objects that no
slice points to any more are destroyed, and their handles with them. -/
def setMemoryMap (w : Wrapper) (pointers : List (AllocationPointer InternedStackTrace))
    (memoryMap : MemoryMap InternedStackTrace) : Option Wrapper :=
  let released := pointers.filter fun p => p ∉ memoryMap.allocations
  (w.internedStackTraces.destroyAll (released.map fun p => p.target.stackTrace)).map
    fun interned => { w with memoryMap := memoryMap, internedStackTraces := interned }

/-- What `mmap` does under the lock. The local `allocation` is destroyed at the
end; the object in the map has a copy of its handle. -/
def registerMapping (w : Wrapper) (c : MmapCall) : Option Wrapper :=
  let (handle, interned) := w.internedStackTraces.construct c.stackTrace
  let allocation : MMapAllocation InternedStackTrace :=
    ⟨handle, toIntptr c.ret, (roundUpToPageMultiple pageSize c.len).toNat⟩
  let ((stackTraceId, stackTraceIsNew), w) :=
    { w with internedStackTraces := interned }.getOrAssignStackId handle.get
  let w := { w with
    stackLog := if stackTraceIsNew then w.stackLog ++ [(stackTraceId, handle.get)] else w.stackLog
    eventLog := w.eventLog ++ [LogLine.map c.time c.ret c.len stackTraceId]
    internedStackTraces := interned.copy handle }
  (w.setMemoryMap [⟨w.memoryMap.made, allocation⟩] (w.memoryMap.registerMap allocation)).bind
    fun w => (w.internedStackTraces.destroy handle).map
      fun interned => { w with internedStackTraces := interned }

def mmap (w : Wrapper) (c : MmapCall) : Option Wrapper :=
  if c.Registers then w.registerMapping pageSize c else some w

/-- What `munmap` does under the lock. -/
def unregisterMapping (w : Wrapper) (c : MunmapCall) : Option Wrapper :=
  if c.succeeds then
    if c.addr &&& (pageSize - 1) ≠ 0 then none
    else
      (w.memoryMap.registerUnmap .lp64 (toIntptr c.addr)
        (roundUpToPageMultiple pageSize c.length).toNat).bind fun (known, memoryMap) =>
          (w.setMemoryMap w.memoryMap.allocations memoryMap).map fun w =>
            if known then
              { w with eventLog := w.eventLog ++ [LogLine.unmap c.time c.addr c.length] }
            else w
  else some { w with eventLog := w.eventLog ++ [LogLine.unmapFailed c.time c.addr c.length] }

def munmap (w : Wrapper) (c : MunmapCall) : Option Wrapper :=
  if c.inLibrary then some w else w.unregisterMapping pageSize c

def next (w : Wrapper) : Call → Option Wrapper
  | .mmap c => w.mmap pageSize c
  | .munmap c => w.munmap pageSize c

/-- The state after a sequence of calls. -/
def run (calls : List Call) : Option Wrapper := calls.foldlM (next pageSize) {}

end Wrapper

end

section

variable {T : Type*} [DecidableEq T] {m m' : MemoryMap T}

theorem MemoryMap.mem_allocations {p : AllocationPointer T} :
    p ∈ m.allocations ↔ ∃ e ∈ m.slices.entries, e.2.allocation = p := by
  simp [MemoryMap.allocations]

theorem MemoryMap.nodup_allocations : m.allocations.Nodup := List.nodup_dedup _

/-- The new slice is in the map, or it is dropped and the map stays. -/
theorem MemoryMap.allocations_registerMap (a : MMapAllocation T)
    (hnew : ∀ p ∈ m.allocations, p.object ≠ m.made) :
    (m.registerMap a).allocations = m.allocations ∨
      (m.registerMap a).allocations.Perm (⟨m.made, a⟩ :: m.allocations) := by
  have hslices : (m.registerMap a).slices =
      m.slices.insertNew a.originalStart ⟨a.originalStart, a.originalSize, ⟨m.made, a⟩⟩ := rfl
  rcases m.slices.insertNew_cases a.originalStart
    ⟨a.originalStart, a.originalSize, ⟨m.made, a⟩⟩ with ⟨-, hsame⟩ | ⟨-, l₁, l₂, hold, hplace⟩
  · exact .inl (by rw [MemoryMap.allocations, hslices, hsame, MemoryMap.allocations])
  · have hnot : (⟨m.made, a⟩ : AllocationPointer T) ∉
        m.slices.entries.map fun e => e.2.allocation :=
      fun hmem => hnew _ (List.mem_dedup.mpr hmem) rfl
    refine .inr ?_
    rw [MemoryMap.allocations, MemoryMap.allocations, ← List.dedup_cons_of_notMem hnot]
    refine List.Perm.dedup ?_
    rw [hslices, hold, hplace, List.map_append, List.map_append, List.map_cons]
    exact List.perm_middle

theorem MemoryMap.allocations_registerUnmap {t : Target} {start : ℤ} {size : ℕ} {known : Bool}
    (h : m.registerUnmap t start size = some (known, m')) : m'.allocations ⊆ m.allocations := by
  intro p hp
  obtain ⟨e', he', rfl⟩ := MemoryMap.mem_allocations.mp hp
  obtain ⟨e, he, heq⟩ := (MemoryMap.of_mem_registerUnmap h).2 e' he'
  exact MemoryMap.mem_allocations.mpr ⟨e, he, heq.symm⟩

end

namespace Wrapper

variable {pageSize : UInt64} {w w' : Wrapper}

theorem getOrAssignStackId_cases (w : Wrapper) (stackTrace : StackTrace) :
    (∃ id, w.knownStackTraceHashToId.lookup stackTrace.hash = some id ∧
      w.getOrAssignStackId stackTrace = ((id, false), w)) ∨
    w.knownStackTraceHashToId.lookup stackTrace.hash = none ∧
      w.getOrAssignStackId stackTrace =
        ((UnorderedMap.size w.knownStackTraceHashToId + 1, true),
          { w with
            knownStackTraceHashToId := w.knownStackTraceHashToId.insert stackTrace.hash
              (UnorderedMap.size w.knownStackTraceHashToId + 1) }) := by
  unfold getOrAssignStackId
  cases h : w.knownStackTraceHashToId.lookup stackTrace.hash with
  | some id => exact .inl ⟨id, rfl, rfl⟩
  | none => exact .inr ⟨rfl, rfl⟩

theorem setMemoryMap_spec {pointers : List (AllocationPointer InternedStackTrace)}
    {m : MemoryMap InternedStackTrace} (h : w.setMemoryMap pointers m = some w') :
    ∃ interned, w' = { w with memoryMap := m, internedStackTraces := interned } ∧
      ∀ hash pointer, interned.stackTraces.lookup hash = some pointer →
        w.internedStackTraces.stackTraces.lookup hash = some pointer := by
  obtain ⟨interned, hdestroy, hw'⟩ := Option.map_eq_some_iff.mp h
  exact ⟨interned, hw'.symm, fun _ _ => InternedStackTraces.of_lookup_destroyAll hdestroy⟩

theorem registerMapping_spec {c : MmapCall} (h : w.registerMapping pageSize c = some w') :
    ∃ handle interned id, w.internedStackTraces.construct c.stackTrace = (handle, interned) ∧
      (∀ hash pointer, w'.internedStackTraces.stackTraces.lookup hash = some pointer →
        interned.stackTraces.lookup hash = some pointer) ∧
      w'.memoryMap = w.memoryMap.registerMap
        ⟨handle, toIntptr c.ret, (roundUpToPageMultiple pageSize c.len).toNat⟩ ∧
      w'.eventLog = w.eventLog ++ [.map c.time c.ret c.len id] ∧
      (w.knownStackTraceHashToId.lookup handle.get.hash = some id ∧
          w'.knownStackTraceHashToId = w.knownStackTraceHashToId ∧ w'.stackLog = w.stackLog ∨
        w.knownStackTraceHashToId.lookup handle.get.hash = none ∧
          id = UnorderedMap.size w.knownStackTraceHashToId + 1 ∧
          w'.knownStackTraceHashToId =
            w.knownStackTraceHashToId.insert handle.get.hash id ∧
          w'.stackLog = w.stackLog ++ [(id, handle.get)]) := by
  unfold registerMapping at h
  generalize w.internedStackTraces.construct c.stackTrace = built at h ⊢
  obtain ⟨handle, interned⟩ := built
  dsimp only at h
  cases getOrAssignStackId_cases { w with internedStackTraces := interned } handle.get with
  | inl hknown =>
      obtain ⟨id, hlookup, heq⟩ := hknown
      rw [heq] at h
      obtain ⟨w₁, hset, hend⟩ := Option.bind_eq_some_iff.mp h
      obtain ⟨interned₁, rfl, hsub⟩ := setMemoryMap_spec hset
      obtain ⟨interned₂, hdestroy, rfl⟩ := Option.map_eq_some_iff.mp hend
      refine ⟨handle, interned, id, rfl, fun hash pointer hfound => ?_, rfl, rfl,
        .inl ⟨hlookup, rfl, rfl⟩⟩
      exact hsub hash pointer (InternedStackTraces.of_lookup_destroy hdestroy hfound)
  | inr hnew =>
      obtain ⟨hlookup, heq⟩ := hnew
      rw [heq] at h
      obtain ⟨w₁, hset, hend⟩ := Option.bind_eq_some_iff.mp h
      obtain ⟨interned₁, rfl, hsub⟩ := setMemoryMap_spec hset
      obtain ⟨interned₂, hdestroy, rfl⟩ := Option.map_eq_some_iff.mp hend
      refine ⟨handle, interned, _, rfl, fun hash pointer hfound => ?_, rfl, rfl,
        .inr ⟨hlookup, rfl, rfl, rfl⟩⟩
      exact hsub hash pointer (InternedStackTraces.of_lookup_destroy hdestroy hfound)

/-- A call of `munmap` is not looked at, or it is registered, or its failure is logged. -/
theorem munmap_cases {c : MunmapCall} (h : w.munmap pageSize c = some w') :
    c.inLibrary = true ∧ w' = w ∨
    (c.inLibrary = false ∧ c.succeeds = true ∧ c.addr &&& (pageSize - 1) = 0 ∧
      ∃ known m interned, w.memoryMap.registerUnmap .lp64 (toIntptr c.addr)
          (roundUpToPageMultiple pageSize c.length).toNat = some (known, m) ∧
        w' = { w with
          memoryMap := m
          internedStackTraces := interned
          eventLog := w.eventLog ++ if known then [.unmap c.time c.addr c.length] else [] } ∧
        ∀ hash pointer, interned.stackTraces.lookup hash = some pointer →
          w.internedStackTraces.stackTraces.lookup hash = some pointer) ∨
    c.inLibrary = false ∧ c.succeeds = false ∧
      w' = { w with eventLog := w.eventLog ++ [.unmapFailed c.time c.addr c.length] } := by
  unfold munmap unregisterMapping at h
  split_ifs at h with hlib hok haligned
  · exact .inl ⟨hlib, (Option.some.inj h).symm⟩
  · obtain ⟨⟨known, m⟩, hunmap, h⟩ := Option.bind_eq_some_iff.mp h
    obtain ⟨w₁, hset, rfl⟩ := Option.map_eq_some_iff.mp h
    obtain ⟨interned, rfl, hsub⟩ := setMemoryMap_spec hset
    refine .inr (.inl ⟨Bool.not_eq_true _ ▸ hlib, hok, not_not.mp haligned, known, m, interned,
      hunmap, ?_, hsub⟩)
    cases known <;> simp
  · exact .inr (.inr ⟨Bool.not_eq_true _ ▸ hlib, Bool.not_eq_true _ ▸ hok,
      (Option.some.inj h).symm⟩)

/-- A successful unmapping from outside the library changes the map, and it is logged
if it was of known memory. -/
theorem munmap_registers {c : MunmapCall} (hlib : c.inLibrary = false) (hok : c.succeeds = true)
    (h : w.munmap pageSize c = some w') :
    ∃ known, w.memoryMap.registerUnmap .lp64 (toIntptr c.addr)
        (roundUpToPageMultiple pageSize c.length).toNat = some (known, w'.memoryMap) ∧
      w'.eventLog = w.eventLog ++ if known then [.unmap c.time c.addr c.length] else [] := by
  rcases munmap_cases h with ⟨hin, -⟩ | ⟨-, -, -, known, m, _, hunmap, rfl, -⟩ | ⟨-, hfailed, -⟩
  · exact absurd hin (by simp [hlib])
  · exact ⟨known, hunmap, rfl⟩
  · exact absurd hfailed (by simp [hok])

/-- The live handles are those of the allocation objects in the map. -/
structure Holds (w : Wrapper) : Prop where
  object_lt : ∀ p ∈ w.memoryMap.allocations, p.object < w.memoryMap.made
  counted : w.internedStackTraces.Counted
    (w.memoryMap.allocations.map fun p => p.target.stackTrace)

theorem holds_initial : Holds {} where
  object_lt := by simp [MemoryMap.allocations, MemoryMap.empty]
  counted := InternedStackTraces.counted_empty

/-- Destroying the handles of what the new map dropped. -/
theorem setMemoryMap_counted (locals : List InternedStackTrace)
    {all pointers : List (AllocationPointer InternedStackTrace)}
    {m : MemoryMap InternedStackTrace}
    (hc : w.internedStackTraces.Counted (locals ++ all.map fun p => p.target.stackTrace))
    (hall : all.Perm (pointers.filter (fun p => p ∉ m.allocations) ++ m.allocations)) :
    ∃ interned, w.setMemoryMap pointers m =
        some { w with memoryMap := m, internedStackTraces := interned } ∧
      interned.Counted (locals ++ m.allocations.map fun p => p.target.stackTrace) ∧
      interned.made = w.internedStackTraces.made := by
  have hperm := (hall.map fun p => p.target.stackTrace).append_left locals
  rw [List.map_append] at hperm
  obtain ⟨interned, hdestroy, hc', hmade⟩ :=
    (hc.perm (hperm.trans (List.perm_append_comm_assoc _ _ _))).destroyAll
  exact ⟨interned, by rw [setMemoryMap, hdestroy]; rfl, hc', hmade⟩

/-- Registering a mapping fails no assertion. -/
theorem Holds.registerMapping (h : w.Holds) (pageSize : UInt64) (c : MmapCall) :
    ∃ w', w.registerMapping pageSize c = some w' ∧ w'.Holds ∧
      w'.internedStackTraces.made =
        (w.internedStackTraces.construct c.stackTrace).2.made := by
  have hbuilt := h.counted.construct c.stackTrace
  unfold Wrapper.registerMapping
  generalize w.internedStackTraces.construct c.stackTrace = built at hbuilt ⊢
  obtain ⟨handle, interned⟩ := built
  have hcopied := hbuilt.copy List.mem_cons_self
  let a : MMapAllocation InternedStackTrace :=
    ⟨handle, toIntptr c.ret, (roundUpToPageMultiple pageSize c.len).toNat⟩
  have hnew : ∀ p ∈ w.memoryMap.allocations, p.object ≠ w.memoryMap.made :=
    fun p hp => (h.object_lt p hp).ne
  have hall : ((⟨w.memoryMap.made, a⟩ : AllocationPointer InternedStackTrace) ::
      w.memoryMap.allocations).Perm
      ([⟨w.memoryMap.made, a⟩].filter (fun p => p ∉ (w.memoryMap.registerMap a).allocations) ++
        (w.memoryMap.registerMap a).allocations) := by
    rcases w.memoryMap.allocations_registerMap a hnew with hsame | hperm
    · have hnot : (⟨w.memoryMap.made, a⟩ : AllocationPointer InternedStackTrace) ∉
          w.memoryMap.allocations := fun hmem => hnew _ hmem rfl
      simp [hsame, hnot]
    · have hmem := hperm.mem_iff.mpr List.mem_cons_self
      simpa [hmem] using hperm.symm
  have htail : ∀ w₁ : Wrapper, w₁.memoryMap = w.memoryMap →
      w₁.internedStackTraces = interned.copy handle →
      ∃ w', ((w₁.setMemoryMap [⟨w₁.memoryMap.made, a⟩] (w₁.memoryMap.registerMap a)).bind
        fun w => (w.internedStackTraces.destroy handle).map
          fun interned => { w with internedStackTraces := interned }) = some w' ∧ w'.Holds ∧
        w'.internedStackTraces.made = interned.made := by
    intro w₁ hmap hinterned
    rw [hmap]
    have hc : w₁.internedStackTraces.Counted ([handle] ++
        (⟨w.memoryMap.made, a⟩ :: w.memoryMap.allocations).map fun p => p.target.stackTrace) :=
      hinterned ▸ hcopied
    obtain ⟨interned₁, hset, hc₁, hmade₁⟩ := setMemoryMap_counted [handle] hc hall
    obtain ⟨interned₂, hdestroy, hc₂, hmade₂⟩ := hc₁.destroy
    refine ⟨_, Option.bind_eq_some_iff.mpr ⟨_, hset, by rw [hdestroy]; rfl⟩,
      ⟨fun p hp => ?_, hc₂⟩,
      hmade₂.trans (hmade₁.trans (congrArg InternedStackTraces.made hinterned))⟩
    obtain ⟨e, he, rfl⟩ := MemoryMap.mem_allocations.mp hp
    rcases MemoryMap.of_mem_registerMap he with heq | he
    · rw [heq]
      exact Nat.lt_succ_self _
    · exact (h.object_lt _ (MemoryMap.mem_allocations.mpr ⟨e, he, rfl⟩)).trans (Nat.lt_succ_self _)
  dsimp only
  rcases getOrAssignStackId_cases { w with internedStackTraces := interned } handle.get with
    ⟨id, -, heq⟩ | ⟨-, heq⟩
  · rw [heq]
    exact htail _ rfl rfl
  · rw [heq]
    exact htail _ rfl rfl

/-- Registering an unmapping fails none if the map does not. -/
theorem Holds.unregisterMapping (h : w.Holds) {c : MunmapCall}
    (haligned : c.addr &&& (pageSize - 1) = 0)
    (hunmap : (w.memoryMap.registerUnmap .lp64 (toIntptr c.addr)
      (roundUpToPageMultiple pageSize c.length).toNat).isSome) :
    ∃ w', w.unregisterMapping pageSize c = some w' ∧ w'.Holds ∧
      w'.internedStackTraces.made = w.internedStackTraces.made := by
  unfold Wrapper.unregisterMapping
  split_ifs with hok hnot
  · exact absurd haligned hnot
  · obtain ⟨⟨known, m⟩, hm⟩ := Option.isSome_iff_exists.mp hunmap
    have hsub := MemoryMap.allocations_registerUnmap hm
    have hall : w.memoryMap.allocations.Perm
        (w.memoryMap.allocations.filter (fun p => p ∉ m.allocations) ++ m.allocations) := by
      have hkept : (w.memoryMap.allocations.filter (fun p => p ∈ m.allocations)).Perm
          m.allocations := by
        rw [List.perm_ext_iff_of_nodup (MemoryMap.nodup_allocations.filter _)
          MemoryMap.nodup_allocations]
        exact fun p => ⟨fun hp => of_decide_eq_true (List.mem_filter.mp hp).2,
          fun hp => List.mem_filter.mpr ⟨hsub hp, decide_eq_true hp⟩⟩
      have hsplit := List.filter_append_perm (fun p => p ∉ m.allocations) w.memoryMap.allocations
      simp only [decide_not, Bool.not_not] at hsplit ⊢
      exact hsplit.symm.trans (hkept.append_left _)
    obtain ⟨interned, hset, hc, hmade⟩ := setMemoryMap_counted [] h.counted hall
    have hlt : ∀ p ∈ m.allocations, p.object < m.made :=
      fun p hp => (MemoryMap.of_mem_registerUnmap hm).1 ▸ h.object_lt p (hsub hp)
    refine ⟨_, Option.bind_eq_some_iff.mpr
      ⟨_, hm, Option.map_eq_some_iff.mpr ⟨_, hset, rfl⟩⟩, ?_⟩
    dsimp only
    split_ifs <;> exact ⟨⟨hlt, hc⟩, hmade⟩
  · exact ⟨_, rfl, ⟨h.object_lt, h.counted⟩, rfl⟩

theorem Holds.next (h : w.Holds) {call : Call} (hnext : w.next pageSize call = some w') :
    w'.Holds := by
  cases call with
  | mmap c =>
      rw [Wrapper.next, Wrapper.mmap] at hnext
      split_ifs at hnext
      · obtain ⟨_, hsome, hholds, -⟩ := h.registerMapping pageSize c
        rwa [← Option.some.inj (hsome.symm.trans hnext)]
      · rwa [← Option.some.inj hnext]
  | munmap c =>
      rcases munmap_cases hnext with ⟨-, rfl⟩ | ⟨hlib, hok, haligned, known, m, _, hunmap, -⟩ |
        ⟨-, -, rfl⟩
      · exact h
      · rw [Wrapper.next, Wrapper.munmap, if_neg (by simp [hlib])] at hnext
        obtain ⟨_, hsome, hholds, -⟩ := h.unregisterMapping haligned
          (Option.isSome_iff_exists.mpr ⟨_, hunmap⟩)
        rwa [← Option.some.inj (hsome.symm.trans hnext)]
      · exact ⟨h.object_lt, h.counted⟩

/-- No call of `mmap` fails an assertion. -/
theorem Holds.exists_next_mmap (h : w.Holds) (pageSize : UInt64) (c : MmapCall) :
    ∃ w', w.next pageSize (.mmap c) = some w' := by
  rw [Wrapper.next, Wrapper.mmap]
  split_ifs
  · obtain ⟨w', hw', -⟩ := h.registerMapping pageSize c
    exact ⟨w', hw'⟩
  · exact ⟨w, rfl⟩

/-- A call of `munmap` fails none if its address is aligned and the map does not. -/
theorem Holds.exists_next_munmap (h : w.Holds) {c : MunmapCall}
    (haligned : c.addr &&& (pageSize - 1) = 0)
    (hunmap : (w.memoryMap.registerUnmap .lp64 (toIntptr c.addr)
      (roundUpToPageMultiple pageSize c.length).toNat).isSome) :
    ∃ w', w.next pageSize (.munmap c) = some w' := by
  rw [Wrapper.next, Wrapper.munmap]
  split_ifs
  · exact ⟨w, rfl⟩
  · obtain ⟨w', hw', -⟩ := h.unregisterMapping haligned hunmap
    exact ⟨w', hw'⟩

end Wrapper

end AllocCounter.MmapCounter
