import AllocCounter.AccessPrograms
import AllocCounter.LeakReport

/-!
# The functions of the table, access by access

What the functions of `alloc-counter/allocation-table.h` do between taking the lock
and giving it back, as single accesses in the order of the source. A counter is read
and then written, and a search, an insertion, a removal and the writing of a record
are an access each. Run alone, each function does what the one of the same name does
at once.
-/
namespace AllocCounter

namespace AllocationTable

variable {t : AllocationTable} {w : TraceEntry}

theorem modifyInfo_congr {f g : WatchedStackTraceInfo → WatchedStackTraceInfo}
    (h : ∀ i, t.info? w = some i → f i = g i) : t.modifyInfo w f = t.modifyInfo w g := by
  unfold modifyInfo
  cases htraces : t.suspiciousFingerprints.lookup w.fingerprint with
  | none => rfl
  | some traces =>
      cases hinfo : traces.lookup w.stackTrace with
      | none => simp [hinfo]
      | some i =>
          have hi : t.info? w = some i := by simp [info?, htraces, hinfo]
          simp [hinfo, h i hi]

theorem modifyInfo_modifyInfo (t : AllocationTable) (w : TraceEntry)
    (f g : WatchedStackTraceInfo → WatchedStackTraceInfo) :
    (t.modifyInfo w f).modifyInfo w g = t.modifyInfo w fun i => g (f i) := by
  unfold modifyInfo
  cases htraces : t.suspiciousFingerprints.lookup w.fingerprint with
  | none => simp [htraces]
  | some traces =>
      cases hinfo : traces.lookup w.stackTrace with
      | none => simp [htraces, hinfo]
      | some i => simp [setInfo, hinfo]

/-- It does not matter that a record is written before it is moved. -/
theorem rekey_written {V : Type} (m : UnorderedMap Address V) (oldMemory newMemory : Address)
    (alloc : V) :
    (UnorderedMap.insertNew newMemory alloc (m.insert oldMemory alloc)).erase oldMemory =
      rekey m oldMemory newMemory alloc := by
  apply Finmap.ext_lookup
  intro a
  rw [← rekey, lookup_rekey, lookup_rekey, UnorderedMap.lookup_insert_eq]
  split_ifs <;> rfl

/-- The counters of an entry are not in the counter that all traces share. -/
theorem modifyInfo_shared (t : AllocationTable) (w : TraceEntry)
    (f : WatchedStackTraceInfo → WatchedStackTraceInfo) (n : UInt32) :
    { t with countLiveCloselyWatchedAllocationsAllTraces := n }.modifyInfo w f =
      { t.modifyInfo w f with countLiveCloselyWatchedAllocationsAllTraces := n } := by
  unfold modifyInfo
  dsimp only
  split
  · rfl
  · split <;> rfl

end AllocationTable

namespace TableAccesses

open AllocationTable Program

def ensureEnabled (time : ℚ) : Program AllocationTable Unit := do
  let enabled ← load fun t => t.stats.enabled
  if enabled then pure ()
  else
    store fun t => { t with stats := { t.stats with enabled := true } }
    store fun t => { t with stats := { t.stats with timeWatchEnabled := time } }

/-- A counter of the statistics goes up. -/
def countUp (get : AllocationStats → UInt64) (set : UInt64 → AllocationStats → AllocationStats) :
    Program AllocationTable Unit :=
  update (fun t => get t.stats) (fun n t => { t with stats := set n t.stats }) (· + 1)

/-- A counter of an entry changes. -/
def updateInfo {N : Type} (w : TraceEntry) (get : WatchedStackTraceInfo → N)
    (set : N → WatchedStackTraceInfo → WatchedStackTraceInfo) (f : N → N) :
    Program AllocationTable Unit :=
  update (fun t => get (t.info w)) (fun n t => t.modifyInfo w (set n)) f

/-- The counter that all traces share changes. -/
def updateShared (f : UInt32 → UInt32) : Program AllocationTable Unit :=
  update countLiveCloselyWatchedAllocationsAllTraces
    (fun n t => { t with countLiveCloselyWatchedAllocationsAllTraces := n }) f

def storeLight (f : UnorderedMap Address LightAllocation → UnorderedMap Address LightAllocation) :
    Program AllocationTable Unit :=
  store fun t => { t with lightAllocationsByAddress := f t.lightAllocationsByAddress }

def storeWatched (f : UnorderedMap Address CloselyWatchedAllocation →
    UnorderedMap Address CloselyWatchedAllocation) : Program AllocationTable Unit :=
  store fun t => { t with
    closelyWatchedAllocationsByAddress := f t.closelyWatchedAllocationsByAddress }

def getOrCreate (w : TraceEntry) : Program AllocationTable Unit := do
  let found ← load fun t => t.info? w
  if found.isSome then pure ()
  else
    store fun t =>
      match t.suspiciousFingerprints.lookup w.fingerprint with
      | none => t
      | some traces => t.setInfo w traces { stackTrace := w.stackTrace }

/-- A record is written and moved to another key. -/
def moveRecord {V : Type} (storeMap : (UnorderedMap Address V → UnorderedMap Address V) →
    Program AllocationTable Unit) (oldMemory newMemory : Address) (alloc : V) :
    Program AllocationTable Unit := do
  storeMap (·.insert oldMemory alloc)
  storeMap (UnorderedMap.insertNew newMemory alloc)
  storeMap (·.erase oldMemory)

/-- The counters of a closely watched allocation that starts, and its record. -/
def startWatched (memory : Address) (alloc : CloselyWatchedAllocation) :
    Program AllocationTable Unit := do
  updateInfo alloc.watchedStackTraceInfo WatchedStackTraceInfo.countLiveCloselyWatchedAllocations
    (fun n i => { i with countLiveCloselyWatchedAllocations := n }) (· + 1)
  updateShared (· + 1)
  updateInfo alloc.watchedStackTraceInfo
    WatchedStackTraceInfo.countTotalCloselyWatchedAllocationsEverCreated
    (fun n i => { i with countTotalCloselyWatchedAllocationsEverCreated := n }) (· + 1)
  storeWatched (·.insert memory alloc)

section

variable (env : Environment)

def instrumentedAllocate (c : Caller) (size alignment : UInt32)
    (fingerprint : CallstackFingerprint) (real : RealCall → Address) (zeroFill : ZeroFill) :
    Program AllocationTable (Address × List Effect) :=
  if Bypasses c then pure (real .preferred, [.real .preferred (real .preferred)])
  else do
    ensureEnabled c.clock
    countUp AllocationStats.allocationCount fun n stats => { stats with allocationCount := n }
    let stackTraceTable ← load fun t => t.suspiciousFingerprints.lookup fingerprint
    match stackTraceTable with
    | none =>
        let memory := real .preferred
        if memory = 0 then pure (0, [.real .preferred memory])
        else
          let alloc : LightAllocation :=
            { fingerprint := fingerprint
              memory := memory
              requestedSize := size
              deadline := (c.time + env.timeForAllocationToBecomeSuspicious.toUInt64).toUInt32 }
          storeLight (·.insert memory alloc)
          pure (memory, [.real .preferred memory])
    | some _ =>
        countUp AllocationStats.allocationWithSuspiciousFingerprintCount fun n stats =>
          { stats with allocationWithSuspiciousFingerprintCount := n }
        let entry : TraceEntry := ⟨fingerprint, c.stackTrace⟩
        getOrCreate entry
        let info ← load fun t => t.info entry
        let allTraces ← load countLiveCloselyWatchedAllocationsAllTraces
        if ¬ info.needsMoreCloselyWatchedAllocations env allTraces then
          updateInfo entry WatchedStackTraceInfo.countSkippedAllocations
            (fun n i => { i with countSkippedAllocations := n }) (· + 1)
          pure (real .preferred, [.real .preferred (real .preferred)])
        else
          let call := RealCall.memalign (max alignment env.pageSize).toUInt64
            (env.roundUpToPageMultiple size).toUInt64
          let memory := real call
          if memory = 0 then pure (0, [.real call memory])
          else
            let alloc : CloselyWatchedAllocation :=
              { memory := memory
                requestedSize := size
                allocationTime := c.time.toUInt32
                deadline := c.time.toUInt32 + env.timeForAllocationToBecomeSuspicious
                state := .notYetSuspicious
                watchedStackTraceInfo := entry }
            startWatched memory alloc
            pure (memory, .real call memory :: zeroFill.fill memory size)

/-- `none` is the crash of copying to `NULL`. -/
def instrumentedReallocate (c : Caller) (oldMemory : Address) (newRequestedSize : UInt64)
    (real : RealCall → Address) : Program AllocationTable (Option (Address × List Effect)) :=
  if Bypasses c then pure (some (real .preferred, [.real .preferred (real .preferred)]))
  else do
    ensureEnabled c.clock
    countUp AllocationStats.reallocCount fun n stats => { stats with reallocCount := n }
    let light ← load fun t => t.lightAllocationsByAddress.lookup oldMemory
    match light with
    | some alloc =>
        let alloc := { alloc with requestedSize := newRequestedSize.toUInt32 }
        storeLight (·.insert oldMemory alloc)
        let newMemory := real .preferred
        if newMemory ≠ oldMemory then
          moveRecord storeLight oldMemory newMemory { alloc with memory := newMemory }
          pure (some (newMemory, [.real .preferred newMemory]))
        else pure (some (newMemory, [.real .preferred newMemory]))
    | none =>
        let watched ← load fun t => t.closelyWatchedAllocationsByAddress.lookup oldMemory
        match watched with
        | some alloc =>
            let oldActualSize := (env.roundUpToPageMultiple alloc.requestedSize).toUInt64
            let newActualSize := (env.roundUpToPageMultiple newRequestedSize.toUInt32).toUInt64
            let resized := { alloc with requestedSize := newRequestedSize.toUInt32 }
            if newActualSize ≠ oldActualSize then
              let call := RealCall.memalign env.pageSize.toUInt64 newActualSize
              let newMemory := real call
              if newMemory = 0 ∧ alloc.requestedSize ≠ 0 then pure none
              else
                storeWatched (·.insert oldMemory resized)
                moveRecord storeWatched oldMemory newMemory { resized with memory := newMemory }
                pure (some (newMemory,
                  [.real call newMemory, .memcpy newMemory oldMemory alloc.requestedSize]))
            else
              storeWatched (·.insert oldMemory resized)
              pure (some (oldMemory, []))
        | none => pure (some (real .preferred, [.real .preferred (real .preferred)]))

def instrumentedFree (c : Caller) (memory : Address) (real : RealCall → Address) :
    Program AllocationTable (List Effect) :=
  if memory = 0 then pure []
  else if Bypasses c then pure [.real .preferred (real .preferred)]
  else do
    ensureEnabled c.clock
    countUp AllocationStats.freeCount fun n stats => { stats with freeCount := n }
    let light ← load fun t => t.lightAllocationsByAddress.lookup memory
    match light with
    | some _ =>
        storeLight (·.erase memory)
        pure [.real .preferred (real .preferred)]
    | none =>
        let watched ← load fun t => t.closelyWatchedAllocationsByAddress.lookup memory
        match watched with
        | some alloc =>
            updateInfo alloc.watchedStackTraceInfo
              WatchedStackTraceInfo.countLiveCloselyWatchedAllocations
              (fun n i => { i with countLiveCloselyWatchedAllocations := n }) (· - 1)
            updateShared (· - 1)
            storeWatched (·.erase memory)
            pure [.real .preferred (real .preferred)]
        | none => pure [.real .preferred (real .preferred)]

/-- The first loop's visit of one key. -/
def patrolLight (now : UInt32) (_ : Unit) (key : Address) : Program AllocationTable Unit := do
  let light ← load fun t => t.lightAllocationsByAddress.lookup key
  match light with
  | none => pure ()
  | some alloc =>
      if alloc.deadline < now then
        store (·.addSuspiciousFingerprint alloc.fingerprint)
        storeLight (·.erase key)
      else pure ()

/-- The second loop's visit of one key. -/
def patrolWatched (now : UInt32) (foundLeaks : List FoundLeak) (key : Address) :
    Program AllocationTable (List FoundLeak) := do
  let watched ← load fun t => t.closelyWatchedAllocationsByAddress.lookup key
  match watched with
  | none => pure foundLeaks
  | some alloc =>
      if alloc.deadline < now then
        match alloc.state with
        | .notYetSuspicious =>
            let alloc := { alloc with state := .suspicious }
            storeWatched (·.insert key alloc)
            let alloc :=
              { alloc with deadline := now + env.closelyWatchedAllocationsAccessMaxInterval }
            storeWatched (·.insert key alloc)
            pure foundLeaks
        | .suspicious =>
            updateInfo alloc.watchedStackTraceInfo
              WatchedStackTraceInfo.countLeakedCloselyWatchedAllocations
              (fun n i => { i with countLeakedCloselyWatchedAllocations := n }) (· + 1)
            updateInfo alloc.watchedStackTraceInfo
              WatchedStackTraceInfo.countLiveCloselyWatchedAllocations
              (fun n i => { i with countLiveCloselyWatchedAllocations := n }) (· - 1)
            updateShared (· - 1)
            updateInfo alloc.watchedStackTraceInfo WatchedStackTraceInfo.countTotalLeakedMemory
              (fun n i => { i with countTotalLeakedMemory := n })
              (· + alloc.requestedSize.toUInt64)
            storeWatched (·.erase key)
            pure (foundLeaks ++ [⟨alloc.watchedStackTraceInfo, alloc.memory, alloc.requestedSize⟩])
      else pure foundLeaks

def patrolThreadUpdateAllocationStates (time : UInt64) (lightOrder watchedOrder : List Address) :
    Program AllocationTable (AllocationStats × List FoundLeak) := do
  let now := time.toUInt32
  lightOrder.foldlM (patrolLight now) ()
  let foundLeaks ← watchedOrder.foldlM (patrolWatched env now) []
  let stats ← load stats
  pure (stats, foundLeaks)

/-- The inner loop's visit of one key. -/
def reportTrace (fingerprint : CallstackFingerprint) (c : ReportCounts) (key : StackTrace) :
    Program AllocationTable ReportCounts :=
  load fun t => (t.suspiciousFingerprints.lookup fingerprint).elim c fun traces =>
    AllocationTable.reportTrace env fingerprint traces c key

/-- The outer loop's visit of one key. -/
def reportFingerprint (c : ReportCounts) (visit : CallstackFingerprint × List StackTrace) :
    Program AllocationTable ReportCounts := do
  let traces ← load fun t => t.suspiciousFingerprints.lookup visit.1
  match traces with
  | none => pure c
  | some _ =>
      visit.2.foldlM (reportTrace env visit.1)
        { c with countFingerprints := c.countFingerprints + 1 }

/-- What the report is made from: the counts and the ratio of the statistics. -/
def patrolThreadMakeLeakReport (order : ReportOrder) :
    Program AllocationTable (ReportCounts × Option ℚ) := do
  let counts ← order.foldlM (reportFingerprint env) {}
  let suspicious ← load fun t => t.stats.allocationWithSuspiciousFingerprintCount
  let allocations ← load fun t => t.stats.allocationCount
  pure (counts, ratio suspicious.toNat allocations.toNat)

end

variable {env : Environment} {t : AllocationTable}

@[simp] theorem run_ensureEnabled (time : ℚ) :
    (ensureEnabled time).run t = ({ t with stats := t.stats.ensureEnabled time }, ()) := by
  unfold ensureEnabled AllocationStats.ensureEnabled
  cases h : t.stats.enabled <;> simp [h]

@[simp] theorem run_updateInfo {N : Type} (w : TraceEntry) (get : WatchedStackTraceInfo → N)
    (set : N → WatchedStackTraceInfo → WatchedStackTraceInfo) (f : N → N) :
    (updateInfo w get set f).run t = (t.modifyInfo w fun i => set (f (get i)) i, ()) := by
  rw [updateInfo, run_update]
  refine congrArg (·, ()) (modifyInfo_congr fun i hi => ?_)
  rw [info, hi, Option.getD_some]

@[simp] theorem run_updateShared (f : UInt32 → UInt32) :
    (updateShared f).run t = ({ t with
      countLiveCloselyWatchedAllocationsAllTraces :=
        f t.countLiveCloselyWatchedAllocationsAllTraces }, ()) := rfl

@[simp] theorem run_storeLight
    (f : UnorderedMap Address LightAllocation → UnorderedMap Address LightAllocation) :
    (storeLight f).run t =
      ({ t with lightAllocationsByAddress := f t.lightAllocationsByAddress }, ()) := rfl

@[simp] theorem run_storeWatched (f : UnorderedMap Address CloselyWatchedAllocation →
    UnorderedMap Address CloselyWatchedAllocation) :
    (storeWatched f).run t = ({ t with
      closelyWatchedAllocationsByAddress := f t.closelyWatchedAllocationsByAddress }, ()) := rfl

/-- The entry is found or created, and then read. -/
theorem run_getOrCreate {fingerprint : CallstackFingerprint} {traces : SuspiciousStackTracesTable}
    (trace : StackTrace) (h : t.suspiciousFingerprints.lookup fingerprint = some traces) :
    (getOrCreate ⟨fingerprint, trace⟩).run t =
        ((t.getOrCreate fingerprint traces trace).1, ()) ∧
      (t.getOrCreate fingerprint traces trace).1.info ⟨fingerprint, trace⟩ =
        (t.getOrCreate fingerprint traces trace).2 := by
  constructor
  · unfold getOrCreate AllocationTable.getOrCreate
    cases hs : traces.lookup trace <;> simp [info?, h, hs]
  · rw [getOrCreate_info t trace h, (getOrCreate_spec t trace h).2.2.2]

@[simp] theorem run_startWatched (memory : Address) (alloc : CloselyWatchedAllocation) :
    (startWatched memory alloc).run t = (t.startWatched memory alloc, ()) := by
  simp only [startWatched, AllocationTable.startWatched, run_bind, run_updateInfo,
    run_updateShared, run_storeWatched, modifyInfo_shared, modifyInfo_modifyInfo,
    modifyInfo_global]

theorem run_instrumentedAllocate (t : AllocationTable) (c : Caller) (size alignment : UInt32)
    (fingerprint : CallstackFingerprint) (real : RealCall → Address) (zeroFill : ZeroFill) :
    (instrumentedAllocate env c size alignment fingerprint real zeroFill).run t =
      ((t.instrumentedAllocate env c size alignment fingerprint real zeroFill).table,
        (t.instrumentedAllocate env c size alignment fingerprint real zeroFill).memory,
        (t.instrumentedAllocate env c size alignment fingerprint real zeroFill).effects) := by
  unfold instrumentedAllocate AllocationTable.instrumentedAllocate
  by_cases hbypass : Bypasses c
  · simp [hbypass]
  simp only [if_neg hbypass, run_bind, run_ensureEnabled, countUp, run_update, run_load]
  cases htraces : t.suspiciousFingerprints.lookup fingerprint with
  | none =>
      by_cases hnull : real .preferred = 0 <;> simp [hnull]
  | some traces =>
      simp only [run_bind, run_update, run_load]
      -- the table when the call has been counted
      generalize hcounted : AllocationTable.mk t.lightAllocationsByAddress
        t.closelyWatchedAllocationsByAddress t.suspiciousFingerprints _
        t.countLiveCloselyWatchedAllocationsAllTraces = counted
      have hfound : counted.suspiciousFingerprints.lookup fingerprint = some traces :=
        hcounted ▸ htraces
      obtain ⟨hrun, hinfo⟩ := run_getOrCreate c.stackTrace hfound
      simp only [hrun, hinfo]
      generalize counted.getOrCreate fingerprint traces c.stackTrace = created
      generalize RealCall.memalign _ _ = call
      by_cases hneeds : created.2.needsMoreCloselyWatchedAllocations env
          created.1.countLiveCloselyWatchedAllocationsAllTraces = true
      · by_cases hnull : real call = 0 <;> simp [hneeds, hnull]
      · simp [hneeds]

/-- The table of a reallocation that crashes: it has been counted. -/
def countRealloc (t : AllocationTable) (time : ℚ) : AllocationTable :=
  let stats := t.stats.ensureEnabled time
  { t with stats := { stats with reallocCount := stats.reallocCount + 1 } }

theorem run_instrumentedReallocate (t : AllocationTable) (c : Caller) (oldMemory : Address)
    (newRequestedSize : UInt64) (real : RealCall → Address) :
    (instrumentedReallocate env c oldMemory newRequestedSize real).run t =
      match t.instrumentedReallocate env c oldMemory newRequestedSize real with
      | some o => (o.table, some (o.memory, o.effects))
      | none => (countRealloc t c.clock, none) := by
  unfold instrumentedReallocate AllocationTable.instrumentedReallocate
  by_cases hbypass : Bypasses c
  · simp [hbypass]
  simp only [if_neg hbypass, run_bind, run_ensureEnabled, countUp, run_update, run_load]
  cases hlight : t.lightAllocationsByAddress.lookup oldMemory with
  | some alloc =>
      by_cases hmoved : real .preferred = oldMemory
      · simp [hmoved]
      · simp [hmoved, moveRecord, Finmap.insert_insert, rekey_written]
  | none =>
      simp only [run_bind, run_load]
      cases hwatched : t.closelyWatchedAllocationsByAddress.lookup oldMemory with
      | none => simp
      | some alloc =>
          dsimp only
          generalize RealCall.memalign _ _ = call
          by_cases hpages : (env.roundUpToPageMultiple newRequestedSize.toUInt32).toUInt64 =
              (env.roundUpToPageMultiple alloc.requestedSize).toUInt64
          · simp [hpages]
          · by_cases hcrash : real call = 0 ∧ alloc.requestedSize ≠ 0
            · simp [hpages, hcrash, countRealloc]
            · simp only [ne_eq, hpages, not_false_eq_true, if_true, hcrash, if_false, run_bind,
                run_storeWatched, moveRecord, Finmap.insert_insert, rekey_written, run_pure]

theorem run_instrumentedFree (t : AllocationTable) (c : Caller) (memory : Address)
    (real : RealCall → Address) :
    (instrumentedFree c memory real).run t = t.instrumentedFree c memory real := by
  unfold instrumentedFree AllocationTable.instrumentedFree
  by_cases hnull : memory = 0
  · simp [hnull]
  by_cases hbypass : Bypasses c
  · simp [hnull, hbypass]
  simp only [if_neg hnull, if_neg hbypass, run_bind, run_ensureEnabled, countUp, run_update,
    run_load]
  cases hlight : t.lightAllocationsByAddress.lookup memory with
  | some alloc => simp
  | none =>
      simp only [run_bind, run_load]
      cases hwatched : t.closelyWatchedAllocationsByAddress.lookup memory with
      | none => simp
      | some alloc => simp [finishWatched]

theorem run_patrolLight (now : UInt32) (t : AllocationTable) (key : Address) :
    (patrolLight now () key).run t = (t.patrolLight now key, ()) := by
  unfold patrolLight AllocationTable.patrolLight
  rw [run_bind, run_load]
  cases t.lightAllocationsByAddress.lookup key with
  | none => rfl
  | some alloc => by_cases hexpired : alloc.deadline < now <;> simp [hexpired]

theorem run_patrolWatched (now : UInt32) (t : AllocationTable) (foundLeaks : List FoundLeak)
    (key : Address) :
    (patrolWatched env now foundLeaks key).run t =
      AllocationTable.patrolWatched env now (t, foundLeaks) key := by
  unfold patrolWatched AllocationTable.patrolWatched
  rw [run_bind, run_load]
  dsimp only
  cases t.closelyWatchedAllocationsByAddress.lookup key with
  | none => rfl
  | some alloc =>
      by_cases hexpired : alloc.deadline < now
      · cases hstate : alloc.state with
        | notYetSuspicious => simp [hexpired, hstate, Finmap.insert_insert]
        | suspicious =>
            simp only [hexpired, hstate, if_true, run_bind, run_updateInfo, run_updateShared,
              run_storeWatched, run_pure, modifyInfo_shared, modifyInfo_modifyInfo,
              modifyInfo_global, finishWatched]
      · simp [hexpired]

theorem run_patrolThreadUpdateAllocationStates (t : AllocationTable) (time : UInt64)
    (lightOrder watchedOrder : List Address) :
    (patrolThreadUpdateAllocationStates env time lightOrder watchedOrder).run t =
      t.patrolThreadUpdateAllocationStates env time lightOrder watchedOrder := by
  have hlight : ∀ t, (lightOrder.foldlM (patrolLight time.toUInt32) ()).run t =
      (lightOrder.foldl (AllocationTable.patrolLight time.toUInt32) t, ()) := by
    induction lightOrder with
    | nil => exact fun _ => rfl
    | cons key lightOrder ih =>
        intro t
        rw [List.foldlM_cons, run_bind, run_patrolLight, ih, List.foldl_cons]
  unfold patrolThreadUpdateAllocationStates AllocationTable.patrolThreadUpdateAllocationStates
  simp only [run_bind, hlight]
  rw [run_foldlM fun t foundLeaks key => run_patrolWatched _ t foundLeaks key]
  rfl

/-- The report only reads. -/
theorem run_reportFingerprint (t : AllocationTable) (c : ReportCounts)
    (visit : CallstackFingerprint × List StackTrace) :
    (reportFingerprint env c visit).run t = (t, t.reportFingerprint env c visit) := by
  unfold reportFingerprint AllocationTable.reportFingerprint
  rw [run_bind, run_load]
  dsimp only
  cases htraces : t.suspiciousFingerprints.lookup visit.1 with
  | none => rfl
  | some traces =>
      dsimp only
      generalize { c with countFingerprints := c.countFingerprints + 1 } = c
      induction visit.2 generalizing c with
      | nil => rfl
      | cons key keys ih =>
          rw [List.foldlM_cons, run_bind, reportTrace, run_load, htraces, List.foldl_cons]
          exact ih _

theorem run_patrolThreadMakeLeakReport (t : AllocationTable) (order : ReportOrder) :
    (patrolThreadMakeLeakReport env order).run t =
      (t, t.reportCounts env order, ratio
        t.stats.allocationWithSuspiciousFingerprintCount.toNat t.stats.allocationCount.toNat) := by
  have hcounts : ∀ c, (order.foldlM (reportFingerprint env) c).run t =
      (t, order.foldl (AllocationTable.reportFingerprint env t) c) := by
    induction order with
    | nil => exact fun _ => rfl
    | cons visit order ih =>
        intro c
        rw [List.foldlM_cons, run_bind, run_reportFingerprint, ih, List.foldl_cons]
  rw [patrolThreadMakeLeakReport, run_bind, hcounts]
  rfl

end TableAccesses

end AllocCounter
