import AllocCounter.UnorderedMaps
import AllocCounter.WatchedStackTraceInfo
import Mathlib.Data.Rat.Defs

/-!
# The allocation table

`alloc-counter/allocation-table.h`, less the leak report. A call takes what its
thread brings (the watch word it reads, whether it runs inside the library, the
clocks, the captured stack) and a function that says what the real allocators
answer. It returns the new table, the pointer and the list of its effects
outside the table, in order.

Entries of the suspicious tables are never removed and do not move, so a
`WatchedStackTraceInfo*` is the fingerprint and the trace under which the entry
is found. The counter that all traces share is kept in the table.
-/
namespace AllocCounter

inductive WatchState where
  | notWatching | watching
deriving DecidableEq, Repr

structure AllocationStats where
  allocationCount : UInt64 := 0
  allocationWithSuspiciousFingerprintCount : UInt64 := 0
  freeCount : UInt64 := 0
  reallocCount : UInt64 := 0
  timeWatchEnabled : ℚ := -1
  enabled : Bool := false
deriving DecidableEq

def AllocationStats.ensureEnabled (stats : AllocationStats) (time : ℚ) : AllocationStats :=
  if stats.enabled then stats else { stats with enabled := true, timeWatchEnabled := time }

/-- A `WatchedStackTraceInfo*`. -/
structure TraceEntry where
  fingerprint : CallstackFingerprint
  stackTrace : StackTrace
deriving DecidableEq, Repr

structure LightAllocation where
  memory : Address
  requestedSize : UInt32
  deadline : UInt32
  fingerprint : CallstackFingerprint
deriving DecidableEq, Repr

inductive CloselyWatchedState where
  | notYetSuspicious | suspicious
deriving DecidableEq, Repr

structure CloselyWatchedAllocation where
  memory : Address
  requestedSize : UInt32
  deadline : UInt32
  state : CloselyWatchedState
  allocationTime : UInt32
  watchedStackTraceInfo : TraceEntry
deriving DecidableEq, Repr

abbrev SuspiciousStackTracesTable := UnorderedMap StackTrace WatchedStackTraceInfo

abbrev SuspiciousFingerprintTable := UnorderedMap CallstackFingerprint SuspiciousStackTracesTable

structure AllocationTable where
  lightAllocationsByAddress : UnorderedMap Address LightAllocation
  closelyWatchedAllocationsByAddress : UnorderedMap Address CloselyWatchedAllocation
  suspiciousFingerprints : SuspiciousFingerprintTable
  stats : AllocationStats
  countLiveCloselyWatchedAllocationsAllTraces : UInt32
deriving DecidableEq

inductive ZeroFill where
  | unnecessary | needed
deriving DecidableEq, Repr

def noAlignment : UInt32 := 1

/-- What the calling thread brings to a call. -/
structure Caller where
  watchState : WatchState
  inLibrary : Bool
  time : UInt64
  clock : ℚ
  stackTrace : StackTrace
deriving DecidableEq

/-- Calls of the real allocators: the function that the wrapper passes, and the
`memalign` of the table itself. -/
inductive RealCall where
  | preferred
  | memalign (alignment size : UInt64)
deriving DecidableEq, Repr

inductive Effect where
  | real (call : RealCall) (answer : Address)
  | bzero (memory : Address) (size : UInt32)
  | memcpy (destination source : Address) (size : UInt32)
deriving DecidableEq, Repr

/-- The filling of a new block, where it is needed. -/
def ZeroFill.fill (zeroFill : ZeroFill) (memory : Address) (size : UInt32) : List Effect :=
  if zeroFill = .needed then [.bzero memory size] else []

structure Outcome where
  table : AllocationTable
  memory : Address
  effects : List Effect
deriving DecidableEq

structure FoundLeak where
  stackTrace : TraceEntry
  memory : Address
  size : UInt32
deriving DecidableEq, Repr

namespace AllocationTable

def empty : AllocationTable := ⟨∅, ∅, ∅, {}, 0⟩

/-- What a `WatchedStackTraceInfo*` points to. -/
def info? (t : AllocationTable) (w : TraceEntry) : Option WatchedStackTraceInfo :=
  (t.suspiciousFingerprints.lookup w.fingerprint).bind fun traces => traces.lookup w.stackTrace

/-- The entry of `w`, in the table `traces` of its fingerprint, becomes `info`. -/
def setInfo (t : AllocationTable) (w : TraceEntry) (traces : SuspiciousStackTracesTable)
    (info : WatchedStackTraceInfo) : AllocationTable :=
  { t with
    suspiciousFingerprints :=
      t.suspiciousFingerprints.insert w.fingerprint (traces.insert w.stackTrace info) }

/-- Writing through a `WatchedStackTraceInfo*`. -/
def modifyInfo (t : AllocationTable) (w : TraceEntry)
    (f : WatchedStackTraceInfo → WatchedStackTraceInfo) : AllocationTable :=
  match t.suspiciousFingerprints.lookup w.fingerprint with
  | none => t
  | some traces =>
      match traces.lookup w.stackTrace with
      | none => t
      | some info => t.setInfo w traces (f info)

def addSuspiciousFingerprint (t : AllocationTable) (fingerprint : CallstackFingerprint) :
    AllocationTable :=
  { t with
    suspiciousFingerprints := UnorderedMap.insertNew fingerprint ∅ t.suspiciousFingerprints }

/-- `getOrCreate` on the table of a suspicious fingerprint. -/
def getOrCreate (t : AllocationTable) (fingerprint : CallstackFingerprint)
    (traces : SuspiciousStackTracesTable) (trace : StackTrace) :
    AllocationTable × WatchedStackTraceInfo :=
  match traces.lookup trace with
  | some info => (t, info)
  | none =>
      let created : WatchedStackTraceInfo := { stackTrace := trace }
      (t.setInfo ⟨fingerprint, trace⟩ traces created, created)

variable (env : Environment)

/-- Inside the library, and while not watching, a call goes straight to the
real function. -/
def Bypasses (c : Caller) : Prop := c.inLibrary = true ∨ c.watchState = .notWatching

instance (c : Caller) : Decidable (Bypasses c) := inferInstanceAs (Decidable (_ ∨ _))

/-- The start of a closely watched allocation: its counters, then its record. -/
def startWatched (t : AllocationTable) (memory : Address) (alloc : CloselyWatchedAllocation) :
    AllocationTable :=
  let t := t.modifyInfo alloc.watchedStackTraceInfo fun i =>
    { i with
      countLiveCloselyWatchedAllocations := i.countLiveCloselyWatchedAllocations + 1
      countTotalCloselyWatchedAllocationsEverCreated :=
        i.countTotalCloselyWatchedAllocationsEverCreated + 1 }
  { t with
    countLiveCloselyWatchedAllocationsAllTraces :=
      t.countLiveCloselyWatchedAllocationsAllTraces + 1
    closelyWatchedAllocationsByAddress :=
      t.closelyWatchedAllocationsByAddress.insert memory alloc }

/-- The end of a closely watched allocation: its record goes, and so does its
share of the live counters. -/
def finishWatched (t : AllocationTable) (memory : Address) (alloc : CloselyWatchedAllocation)
    (f : WatchedStackTraceInfo → WatchedStackTraceInfo) : AllocationTable :=
  let t := t.modifyInfo alloc.watchedStackTraceInfo fun i =>
    f { i with countLiveCloselyWatchedAllocations := i.countLiveCloselyWatchedAllocations - 1 }
  { t with
    countLiveCloselyWatchedAllocationsAllTraces :=
      t.countLiveCloselyWatchedAllocationsAllTraces - 1
    closelyWatchedAllocationsByAddress := t.closelyWatchedAllocationsByAddress.erase memory }

def instrumentedAllocate (t : AllocationTable) (c : Caller) (size alignment : UInt32)
    (fingerprint : CallstackFingerprint) (real : RealCall → Address) (zeroFill : ZeroFill) :
    Outcome :=
  if Bypasses c then ⟨t, real .preferred, [.real .preferred (real .preferred)]⟩
  else
    let stats := t.stats.ensureEnabled c.clock
    let stats := { stats with allocationCount := stats.allocationCount + 1 }
    match t.suspiciousFingerprints.lookup fingerprint with
    | none =>
        let memory := real .preferred
        if memory = 0 then ⟨{ t with stats := stats }, 0, [.real .preferred memory]⟩
        else
          let alloc : LightAllocation :=
            { fingerprint := fingerprint
              memory := memory
              requestedSize := size
              deadline := (c.time + env.timeForAllocationToBecomeSuspicious.toUInt64).toUInt32 }
          ⟨{ t with
              stats := stats
              lightAllocationsByAddress := t.lightAllocationsByAddress.insert memory alloc },
            memory, [.real .preferred memory]⟩
    | some stackTraceTable =>
        let stats :=
          { stats with
            allocationWithSuspiciousFingerprintCount :=
              stats.allocationWithSuspiciousFingerprintCount + 1 }
        let (t, info) :=
          { t with stats := stats }.getOrCreate fingerprint stackTraceTable c.stackTrace
        let entry : TraceEntry := ⟨fingerprint, c.stackTrace⟩
        if ¬ info.needsMoreCloselyWatchedAllocations env
            t.countLiveCloselyWatchedAllocationsAllTraces then
          ⟨t.modifyInfo entry fun i =>
              { i with countSkippedAllocations := i.countSkippedAllocations + 1 },
            real .preferred, [.real .preferred (real .preferred)]⟩
        else
          -- `std::max(alignment, environment.pageSize)`
          let call := RealCall.memalign (max alignment env.pageSize).toUInt64
            (env.roundUpToPageMultiple size).toUInt64
          let memory := real call
          if memory = 0 then ⟨t, 0, [.real call memory]⟩
          else
            let alloc : CloselyWatchedAllocation :=
              { memory := memory
                requestedSize := size
                allocationTime := c.time.toUInt32
                deadline := c.time.toUInt32 + env.timeForAllocationToBecomeSuspicious
                state := .notYetSuspicious
                watchedStackTraceInfo := entry }
            ⟨t.startWatched memory alloc, memory, .real call memory :: zeroFill.fill memory size⟩

/-- A record moved to another key: `insert` keeps a record already there. -/
def rekey {V : Type} (m : UnorderedMap Address V) (oldMemory newMemory : Address) (alloc : V) :
    UnorderedMap Address V :=
  (UnorderedMap.insertNew newMemory alloc m).erase oldMemory

/-- `none` is the crash of copying to `NULL`. -/
def instrumentedReallocate (t : AllocationTable) (c : Caller) (oldMemory : Address)
    (newRequestedSize : UInt64) (real : RealCall → Address) : Option Outcome :=
  if Bypasses c then some ⟨t, real .preferred, [.real .preferred (real .preferred)]⟩
  else
    let stats := t.stats.ensureEnabled c.clock
    let t := { t with stats := { stats with reallocCount := stats.reallocCount + 1 } }
    match t.lightAllocationsByAddress.lookup oldMemory with
    | some alloc =>
        let alloc := { alloc with requestedSize := newRequestedSize.toUInt32 }
        let newMemory := real .preferred
        let light := t.lightAllocationsByAddress
        some ⟨{ t with
            lightAllocationsByAddress :=
              if newMemory ≠ oldMemory then
                rekey light oldMemory newMemory { alloc with memory := newMemory }
              else light.insert oldMemory alloc },
          newMemory, [.real .preferred newMemory]⟩
    | none =>
        match t.closelyWatchedAllocationsByAddress.lookup oldMemory with
        | some alloc =>
            let watched := t.closelyWatchedAllocationsByAddress
            let oldActualSize := (env.roundUpToPageMultiple alloc.requestedSize).toUInt64
            let newActualSize :=
              (env.roundUpToPageMultiple newRequestedSize.toUInt32).toUInt64
            if newActualSize ≠ oldActualSize then
              let call := RealCall.memalign env.pageSize.toUInt64 newActualSize
              let newMemory := real call
              if newMemory = 0 ∧ alloc.requestedSize ≠ 0 then none
              else
                let moved :=
                  { alloc with
                    requestedSize := newRequestedSize.toUInt32
                    memory := newMemory }
                some ⟨{ t with
                    closelyWatchedAllocationsByAddress := rekey watched oldMemory newMemory moved },
                  newMemory,
                  [.real call newMemory, .memcpy newMemory oldMemory alloc.requestedSize]⟩
            else
              let resized := { alloc with requestedSize := newRequestedSize.toUInt32 }
              some ⟨{ t with
                  closelyWatchedAllocationsByAddress := watched.insert oldMemory resized },
                oldMemory, []⟩
        | none => some ⟨t, real .preferred, [.real .preferred (real .preferred)]⟩

def instrumentedFree (t : AllocationTable) (c : Caller) (memory : Address)
    (real : RealCall → Address) : AllocationTable × List Effect :=
  if memory = 0 then (t, [])
  else
    let freeFunction := [Effect.real .preferred (real .preferred)]
    if Bypasses c then (t, freeFunction)
    else
      let stats := t.stats.ensureEnabled c.clock
      let t := { t with stats := { stats with freeCount := stats.freeCount + 1 } }
      match t.lightAllocationsByAddress.lookup memory with
      | some _ =>
          ({ t with lightAllocationsByAddress := t.lightAllocationsByAddress.erase memory },
            freeFunction)
      | none =>
          match t.closelyWatchedAllocationsByAddress.lookup memory with
          | some alloc => (t.finishWatched memory alloc id, freeFunction)
          | none => (t, freeFunction)

/-- The first loop's visit of one key. -/
def patrolLight (now : UInt32) (t : AllocationTable) (key : Address) : AllocationTable :=
  match t.lightAllocationsByAddress.lookup key with
  | none => t
  | some alloc =>
      if alloc.deadline < now then
        let t := t.addSuspiciousFingerprint alloc.fingerprint
        { t with lightAllocationsByAddress := t.lightAllocationsByAddress.erase key }
      else t

/-- The second loop's visit of one key. -/
def patrolWatched (now : UInt32) (s : AllocationTable × List FoundLeak) (key : Address) :
    AllocationTable × List FoundLeak :=
  let (t, foundLeaks) := s
  match t.closelyWatchedAllocationsByAddress.lookup key with
  | none => s
  | some alloc =>
      if alloc.deadline < now then
        match alloc.state with
        | .notYetSuspicious =>
            let alloc :=
              { alloc with
                state := .suspicious
                deadline := now + env.closelyWatchedAllocationsAccessMaxInterval }
            ({ t with
                closelyWatchedAllocationsByAddress :=
                  t.closelyWatchedAllocationsByAddress.insert key alloc }, foundLeaks)
        | .suspicious =>
            (t.finishWatched key alloc fun i =>
              { i with
                countLeakedCloselyWatchedAllocations := i.countLeakedCloselyWatchedAllocations + 1
                countTotalLeakedMemory :=
                  i.countTotalLeakedMemory + alloc.requestedSize.toUInt64 },
              foundLeaks ++ [⟨alloc.watchedStackTraceInfo, alloc.memory, alloc.requestedSize⟩])
      else s

/-- The two loops visit the keys in the given orders. -/
def patrolThreadUpdateAllocationStates (t : AllocationTable) (time : UInt64)
    (lightOrder watchedOrder : List Address) :
    AllocationTable × AllocationStats × List FoundLeak :=
  let now := time.toUInt32
  let (t, foundLeaks) :=
    watchedOrder.foldl (patrolWatched env now) (lightOrder.foldl (patrolLight now) t, [])
  (t, t.stats, foundLeaks)

end AllocationTable

end AllocCounter
