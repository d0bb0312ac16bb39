import AllocCounter.LeakReport
import AllocCounter.TraceHistories

/-!
# The patrol thread

`PatrolThread::monitorMain` of `alloc-counter/patrol-thread.cpp`, beside the calls
of the other threads. The update of a pass and the making of a leak report take
the lock of the table separately, so calls may come between them. The lines of
the two streams are kept with their values instead of their texts. Clock readings
are exact, and CLOCK_MONOTONIC is not set back.
-/
namespace AllocCounter

/-- The settings that only the patrol thread reads, with the others. -/
structure PatrolSettings extends Environment where
  leakReportInterval : UInt32 := 30
  autoStartTime : UInt32 := 0
  leakReportInterval_pos : 0 < leakReportInterval

namespace PatrolThread

/-- What is written to `/tmp/alloc-report`. A callstack is printed as the address
of its entry, and a new leak with its frames. -/
inductive ProgressLine where
  | hello
  | rates (allocs frees reallocs : ℚ)
  | foundNewLeak (callstack : TraceEntry) (memory : Address) (size : UInt32)
  | lostAgain (callstack : TraceEntry) (memory : Address) (size times : UInt32)
deriving DecidableEq

/-- What is written to `/tmp/leak-report`. -/
inductive LeakLine where
  | beginReport (t : ℚ)
  | suspiciousRatio (ratio : ℚ)
  | stackTracesPerFingerprint (average : ℚ)
  | leakyStacks (nonLeaky maybeLeaky : Option ℚ) (leaky : ℚ)
  | lost (leak : Leak)
  | endReport
deriving DecidableEq

/-- Where the thread is: before its loop, in `sleep`, or about to make the report
that it found due. -/
inductive Phase where
  | starting
  | sleeping
  | reporting (stats : AllocationStats) (reportTime : ℚ)
deriving DecidableEq

/-- The local variables of `monitorMain`. -/
structure Monitor where
  phase : Phase := .starting
  stackTraceToOccurrences : UnorderedMap StackTrace UInt32 := ∅
  timeNextLeakReport : ℚ := 0
  progressStream : List ProgressLine := [.hello]
  leakStream : List LeakLine := []

namespace Monitor

/-- At least 1 second should pass before statistics are given. -/
def rates (stats : AllocationStats) (reportTime : ℚ) : List ProgressLine :=
  if stats.enabled = true ∧ reportTime - stats.timeWatchEnabled ≥ 1 then
    let t := reportTime - stats.timeWatchEnabled
    [.rates (stats.allocationCount.toNat / t) (stats.freeCount.toNat / t)
      (stats.reallocCount.toNat / t)]
  else []

/-- The visit of a leak: `insert` leaves an entry that is there, and then the
entry is incremented. -/
def announce (m : Monitor) (leak : FoundLeak) : Monitor :=
  let trace := leak.stackTrace.stackTrace
  let occurrences := (m.stackTraceToOccurrences.lookup trace).getD 0 + 1
  { m with
    stackTraceToOccurrences := m.stackTraceToOccurrences.insert trace occurrences
    progressStream := m.progressStream ++
      [if occurrences = 1 then .foundNewLeak leak.stackTrace leak.memory leak.size
        else .lostAgain leak.stackTrace leak.memory leak.size occurrences] }

/-- The first report is scheduled once the accounting has been running for some
time. -/
def schedule (settings : PatrolSettings) (m : Monitor) (reportTime : ℚ) : Monitor :=
  if m.timeNextLeakReport = 0 then
    { m with timeNextLeakReport := reportTime + settings.leakReportInterval.toNat }
  else m

/-- One round of the loop, from the update to the test of the schedule. -/
def afterUpdate (settings : PatrolSettings) (m : Monitor) (stats : AllocationStats)
    (leaks : List FoundLeak) (reportTime : ℚ) : Monitor :=
  let m := { m with progressStream := m.progressStream ++ rates stats reportTime }
  let m := (leaks.foldl announce m).schedule settings reportTime
  { m with
    phase := if reportTime > m.timeNextLeakReport then .reporting stats reportTime else .sleeping }

/-- The lines of a leak report. A ratio without a denominator is no number and
is not printed. -/
def reportLines (t : ℚ) (report : LeakReport) : List LeakLine :=
  [.beginReport t] ++
    (report.ratioAllocationHasSuspiciousFingerprint.map LeakLine.suspiciousRatio).toList ++
    (report.averageStackTracesPerFingerprint.map LeakLine.stackTracesPerFingerprint).toList ++
    (report.ratioLeakyStacks.map
      (LeakLine.leakyStacks report.ratioNonLeakyStacks report.ratioMaybeLeakyStats)).toList ++
    report.leaks.map LeakLine.lost ++ [.endReport]

/-- The rest of the round, when a report is due. -/
def writeReport (settings : PatrolSettings) (m : Monitor) (stats : AllocationStats)
    (reportTime : ℚ) (report : LeakReport) : Monitor :=
  { m with
    phase := .sleeping
    leakStream := m.leakStream ++ reportLines (reportTime - stats.timeWatchEnabled) report
    timeNextLeakReport := reportTime + settings.leakReportInterval.toNat }

end Monitor

inductive Action where
  | call (e : Event)
  | enterLoop
  | update (time : UInt64) (reportTime : ℚ) (lightOrder watchedOrder : List Address)
  | makeReport (order : ReportOrder)
deriving DecidableEq

/-- The program and its patrol thread, with the last time the thread read. -/
structure Monitored where
  system : System
  monitor : Monitor
  clock : ℚ

namespace Monitored

variable (settings : PatrolSettings) (sort : (Leak → Leak → Bool) → List Leak → List Leak)

/-- What becomes of the watch word when the thread enters its loop. -/
def autoStarted (s : Monitored) : WatchState :=
  if settings.autoStartTime ≠ 0 then .watching else s.system.watchState

/-- The step of the program below an action of the thread. -/
def event (s : Monitored) : Action → Event
  | .call e => e
  | .enterLoop => .setWatchState (s.autoStarted settings)
  | .update time _ lightOrder watchedOrder => .patrol time lightOrder watchedOrder
  | .makeReport _ => .setWatchState s.system.watchState

def next (s : Monitored) : Action → Option Monitored
  | .call e => (s.system.next settings.toEnvironment e).map fun system => { s with system := system }
  | .enterLoop =>
      if s.monitor.phase = .starting then
        some { s with
          system := { s.system with watchState := s.autoStarted settings }
          monitor := { s.monitor with phase := .sleeping } }
      else none
  | .update time reportTime lightOrder watchedOrder =>
      if s.monitor.phase = .sleeping then
        let (table, stats, leaks) := s.system.table.patrolThreadUpdateAllocationStates
          settings.toEnvironment time lightOrder watchedOrder
        some
          { system := { s.system with table := table }
            monitor := s.monitor.afterUpdate settings stats leaks reportTime
            clock := reportTime }
      else none
  | .makeReport order =>
      match s.monitor.phase with
      | .reporting stats reportTime =>
          some { s with
            monitor := s.monitor.writeReport settings stats reportTime
              (s.system.table.patrolThreadMakeLeakReport settings.toEnvironment order sort) }
      | .starting | .sleeping => none

/-- Calls are those of the other threads. The patrol thread visits every key
once, and reads a clock that is not set back. -/
def Allowed (s : Monitored) : Action → Prop
  | .call e => (∀ time lightOrder watchedOrder, e ≠ .patrol time lightOrder watchedOrder) ∧
      s.system.Allowed settings.toEnvironment e
  | .enterLoop => True
  | .update time reportTime lightOrder watchedOrder =>
      s.system.Allowed settings.toEnvironment (.patrol time lightOrder watchedOrder) ∧
        s.clock ≤ reportTime
  | .makeReport order => s.system.table.Visits order

instance (t : AllocationTable) (order : ReportOrder) : Decidable (t.Visits order) :=
  decidable_of_iff (_ ∧ _) ⟨fun h => ⟨h.1, h.2⟩, fun h => ⟨h.fingerprints, h.traces⟩⟩

instance : (e : Event) →
    Decidable (∀ time lightOrder watchedOrder, e ≠ .patrol time lightOrder watchedOrder)
  | .patrol time lightOrder watchedOrder => isFalse fun h => h time lightOrder watchedOrder rfl
  | .setWatchState _ | .allocate _ _ _ _ | .reallocate _ _ _ _ _ | .free _ _ _ _ _ =>
      isTrue (by simp)

instance (s : Monitored) : (a : Action) → Decidable (s.Allowed settings a)
  | .call _ | .update _ _ _ _ => inferInstanceAs (Decidable (_ ∧ _))
  | .enterLoop => inferInstanceAs (Decidable True)
  | .makeReport order => inferInstanceAs (Decidable (s.system.table.Visits order))

def Step (s : Monitored) (a : Action) (s' : Monitored) : Prop :=
  s.Allowed settings a ∧ s.next settings sort a = some s'

structure Initial (s : Monitored) : Prop where
  system : s.system.Initial
  monitor : s.monitor = {}
  clock : 0 ≤ s.clock

def start : Monitored := ⟨System.start, {}, 0⟩

theorem initial_start : start.Initial := ⟨System.initial_start, rfl, le_rfl⟩

variable {settings sort} {s s' : Monitored}

theorem step_call {e : Event} (h : s.Step settings sort (.call e) s') :
    (∀ time lightOrder watchedOrder, e ≠ .patrol time lightOrder watchedOrder) ∧
      ∃ system, s.system.Step settings.toEnvironment e system ∧
        s' = { s with system := system } := by
  obtain ⟨⟨hcall, hallowed⟩, hnext⟩ := h
  obtain ⟨system, hsystem, hs'⟩ := Option.map_eq_some_iff.mp hnext
  exact ⟨hcall, system, ⟨hallowed, hsystem⟩, hs'.symm⟩

theorem step_enterLoop (h : s.Step settings sort .enterLoop s') :
    s.monitor.phase = .starting ∧ s' = { s with
      system := { s.system with watchState := s.autoStarted settings }
      monitor := { s.monitor with phase := .sleeping } } := by
  obtain ⟨-, hnext⟩ := h
  rw [next] at hnext
  split_ifs at hnext with hphase
  exact ⟨hphase, (Option.some.inj hnext).symm⟩

theorem step_update {time : UInt64} {reportTime : ℚ} {lightOrder watchedOrder : List Address}
    (h : s.Step settings sort (.update time reportTime lightOrder watchedOrder) s') :
    s.monitor.phase = .sleeping ∧ s.clock ≤ reportTime ∧
      s.system.Step settings.toEnvironment (.patrol time lightOrder watchedOrder) s'.system ∧
      s'.clock = reportTime ∧
      s'.monitor = s.monitor.afterUpdate settings s.system.table.stats
        (s.system.foundLeaks settings.toEnvironment (.patrol time lightOrder watchedOrder))
        reportTime := by
  obtain ⟨⟨hallowed, hclock⟩, hnext⟩ := h
  rw [next] at hnext
  split_ifs at hnext with hphase
  have hs' := (Option.some.inj hnext).symm
  subst hs'
  have hstats : (s.system.table.patrolThreadUpdateAllocationStates settings.toEnvironment time
      lightOrder watchedOrder).2.1 = s.system.table.stats :=
    (AllocationTable.patrol_reports settings.toEnvironment s.system.table time lightOrder
      watchedOrder).stats
  exact ⟨hphase, hclock, ⟨hallowed, rfl⟩, rfl, congrArg (fun stats =>
    s.monitor.afterUpdate settings stats (s.system.foundLeaks settings.toEnvironment
      (.patrol time lightOrder watchedOrder)) reportTime) hstats⟩

theorem step_makeReport {order : ReportOrder} (h : s.Step settings sort (.makeReport order) s') :
    s.system.table.Visits order ∧ ∃ stats reportTime,
      s.monitor.phase = .reporting stats reportTime ∧ s' = { s with
        monitor := s.monitor.writeReport settings stats reportTime
          (s.system.table.patrolThreadMakeLeakReport settings.toEnvironment order sort) } := by
  obtain ⟨hvisits, hnext⟩ := h
  rw [next] at hnext
  cases hphase : s.monitor.phase with
  | starting | sleeping =>
      rw [hphase] at hnext
      exact nomatch hnext
  | reporting stats reportTime =>
      rw [hphase] at hnext
      exact ⟨hvisits, stats, reportTime, rfl, (Option.some.inj hnext).symm⟩

/-- Below every action is a step of the program. -/
theorem system_step {a : Action} (h : s.Step settings sort a s') :
    s.system.Step settings.toEnvironment (s.event settings a) s'.system := by
  cases a with
  | call e =>
      obtain ⟨-, system, hstep, rfl⟩ := step_call h
      exact hstep
  | enterLoop =>
      obtain ⟨-, rfl⟩ := step_enterLoop h
      exact ⟨trivial, rfl⟩
  | update time reportTime lightOrder watchedOrder => exact (step_update h).2.2.1
  | makeReport order =>
      obtain ⟨-, stats, reportTime, -, rfl⟩ := step_makeReport h
      exact ⟨trivial, rfl⟩

/-- The run of the program below a run with the patrol thread. -/
def program (x : Execution Initial (Step settings sort)) :
    Execution System.Initial (System.Step settings.toEnvironment) where
  length := x.length
  state i := (x.state i).system
  event i := (x.state i).event settings (x.event i)
  starts := x.starts.system
  steps i hi := system_step (x.steps i hi)

/-- Watching starts after a second. A block is found leaked by the third pass, and
the report that the fourth one finds due is made after another call. -/
def reportActions : List Action :=
  [.enterLoop,
    .call (.allocate (System.callerAt 0) ⟨8, 1, 7, .unnecessary⟩ 0x1000 8),
    .update 31 5 [0x1000] [],
    .call (.allocate (System.callerAt 32) ⟨8, 1, 7, .unnecessary⟩ 0x2000 4096),
    .update 63 10 [] [0x2000],
    .update 65 15 [] [0x2000],
    .update 66 40 [] [],
    .call (.allocate (System.callerAt 66) ⟨8, 1, 7, .unnecessary⟩ 0x3000 4096),
    .makeReport [(7, [⟨[1]⟩])],
    .update 67 45 [] [0x3000]]

def reportSettings : PatrolSettings :=
  { Environment.default with autoStartTime := 1, leakReportInterval_pos := by decide }

def reportRun : Execution Initial (Step reportSettings fun lt l => l.insertionSort fun a b =>
    lt b a = false) :=
  Execution.ofEvents reportActions .enterLoop initial_start (by decide +kernel)

end Monitored

end PatrolThread

end AllocCounter
