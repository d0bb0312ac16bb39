import AllocCounter.Monitor

/-!
# What the patrol thread writes about leaks

The counters of an entry tally the leaks found so far, whatever the callers do.
The progress stream has one line for every leak, in the order of the passes, that
says how often its stack trace leaked before; and a report lists the callstacks
with such a line, once each, also when calls come between the pass and the report.
-/
namespace AllocCounter

namespace System

open AllocationTable

variable {env : Environment} {s s' : System}

/-- Every record points to an entry. -/
def PointsToEntries (t : AllocationTable) : Prop :=
  ∀ a alloc, t.closelyWatchedAllocationsByAddress.lookup a = some alloc →
    t.Known alloc.watchedStackTraceInfo

theorem PointsToEntries.same {t t' : AllocationTable} (h : PointsToEntries t)
    (hsame : SameCounters t t') : PointsToEntries t' := by
  intro a alloc halloc
  exact hsame.known _ (h a alloc (hsame.watched ▸ halloc))

theorem Reports.known {t t' : AllocationTable} {leaks : List FoundLeak} (h : Reports t t' leaks)
    {w : TraceEntry} (hw : t.Known w) : t'.Known w := by
  rw [Known, h.info?, Option.isSome_map]
  exact hw

/-- The leaks of an entry. -/
def foundOf (w : TraceEntry) (leaks : List FoundLeak) : List FoundLeak :=
  leaks.filter fun leak => leak.stackTrace = w

/-- The counters of the entries tally the leaks. -/
def Tallies (t : AllocationTable) (leaks : List FoundLeak) : Prop :=
  ∀ w, (t.info w).countLeakedCloselyWatchedAllocations =
      UInt32.ofNat (foundOf w leaks).length ∧
    (t.info w).countTotalLeakedMemory =
      UInt64.ofNat ((foundOf w leaks).map fun leak => leak.size.toNat).sum

theorem Tallies.same {t t' : AllocationTable} {leaks : List FoundLeak} (h : Tallies t leaks)
    (hsame : ∀ w, t'.info w = t.info w) : Tallies t' leaks := by
  intro w
  rw [hsame]
  exact h w

theorem Tallies.handles {t t' : AllocationTable} {leaks : List FoundLeak} (h : Tallies t leaks)
    {entry : TraceEntry} {e : TraceEvent} (hone : HandlesOne t t' entry e)
    (he : e = .skip ∨ e = .watch ∨ e = .free) : Tallies t' leaks := by
  intro w
  by_cases hw : w = entry
  · rw [hw, hone.self]
    rcases he with rfl | rfl | rfl <;> exact h entry
  · rw [hone.other w hw]
    exact h w

theorem foundLeaks_call {e : Event}
    (he : ∀ time lightOrder watchedOrder, e ≠ .patrol time lightOrder watchedOrder) :
    s.foundLeaks env e = [] := by
  cases e with
  | patrol time lightOrder watchedOrder => exact absurd rfl (he time lightOrder watchedOrder)
  | setWatchState | allocate | reallocate | free => rfl

section Run

variable (x : Execution Initial (Step env))

/-- The leaks that the first `n` events report, in order. -/
def leaksBefore (n : ℕ) : List FoundLeak :=
  (List.range n).flatMap fun i => (x.state i).foundLeaks env (x.event i)

theorem leaksBefore_succ (n : ℕ) :
    leaksBefore x (n + 1) = leaksBefore x n ++ (x.state n).foundLeaks env (x.event n) := by
  simp [leaksBefore, List.range_succ]

theorem leaksBefore_mono {m n : ℕ} (hmn : m ≤ n) : leaksBefore x m <+: leaksBefore x n := by
  induction hmn with
  | refl => exact List.prefix_refl _
  | step hmn ih =>
      rw [leaksBefore_succ]
      exact ih.trans (List.prefix_append _ _)

end Run

end System

namespace PatrolThread

open AllocationTable AllocCounter.System

/-- The callstack that a line announces a leak of. -/
def ProgressLine.callstack? : ProgressLine → Option TraceEntry
  | .hello | .rates _ _ _ => none
  | .foundNewLeak callstack _ _ | .lostAgain callstack _ _ _ => some callstack

/-- The lines about leaks. -/
def leakLines (stream : List ProgressLine) : List ProgressLine :=
  stream.filter fun line => line.callstack?.isSome

/-- How many of the leaks are of the stack trace. -/
def occurrences (leaks : List FoundLeak) (trace : StackTrace) : ℕ :=
  leaks.countP fun leak => leak.stackTrace.stackTrace = trace

/-- The line that says that a leak is the first one of its stack trace, or how
many there are by now. -/
def lineOf (leak : FoundLeak) (times : ℕ) : ProgressLine :=
  if times = 1 then .foundNewLeak leak.stackTrace leak.memory leak.size
  else .lostAgain leak.stackTrace leak.memory leak.size (UInt32.ofNat times)

/-- The lines announce the leaks, in order. -/
def Announces (lines : List ProgressLine) (leaks : List FoundLeak) : Prop :=
  ∀ i : ℕ, lines[i]? = leaks[i]?.map fun leak =>
    lineOf leak (occurrences (leaks.take i) leak.stackTrace.stackTrace + 1)

theorem Announces.length_eq {lines : List ProgressLine} {leaks : List FoundLeak}
    (h : Announces lines leaks) : lines.length = leaks.length := by
  have hends : ∀ i : ℕ, lines.length ≤ i ↔ leaks.length ≤ i := by
    intro i
    rw [← List.getElem?_eq_none_iff, ← List.getElem?_eq_none_iff, h i, Option.map_eq_none_iff]
  exact le_antisymm ((hends _).mpr le_rfl) ((hends _).mp le_rfl)

theorem Announces.concat {lines : List ProgressLine} {leaks : List FoundLeak}
    (h : Announces lines leaks) (leak : FoundLeak) :
    Announces (lines ++ [lineOf leak (occurrences leaks leak.stackTrace.stackTrace + 1)])
      (leaks ++ [leak]) := by
  have hlength := h.length_eq
  intro i
  obtain hlt | rfl | hgt := Nat.lt_trichotomy i leaks.length
  · rw [List.getElem?_append_left (hlength ▸ hlt), List.getElem?_append_left hlt, h i,
      List.take_append_of_le_length hlt.le]
  · rw [← hlength, List.getElem?_concat_length, hlength, List.getElem?_concat_length,
      List.take_left, Option.map_some]
  · rw [List.getElem?_eq_none (by simp; omega), List.getElem?_eq_none (by simp; omega),
      Option.map_none]

/-- The map counts the leaks of every stack trace, and the stream announces them. -/
structure Monitor.Announced (m : Monitor) (leaks : List FoundLeak) : Prop where
  occurrences : ∀ trace, m.stackTraceToOccurrences.lookup trace =
    if occurrences leaks trace = 0 then none else some (UInt32.ofNat (occurrences leaks trace))
  lines : Announces (leakLines m.progressStream) leaks

/-- The callstack that a line of a leak report lists. -/
def LeakLine.callstack? : LeakLine → Option TraceEntry
  | .lost leak => some leak.stackTrace
  | .beginReport _ | .suspiciousRatio _ | .stackTracesPerFingerprint _ | .leakyStacks _ _ _
  | .endReport => none

namespace Monitor

theorem Announced.announce {m : Monitor} {leaks : List FoundLeak} (h : m.Announced leaks)
    (leak : FoundLeak) (hfit : leaks.length + 1 < 2 ^ 32) :
    (m.announce leak).Announced (leaks ++ [leak]) := by
  have hsucc : ∀ trace, PatrolThread.occurrences (leaks ++ [leak]) trace =
      PatrolThread.occurrences leaks trace +
        if trace = leak.stackTrace.stackTrace then 1 else 0 := by
    intro trace
    simp [PatrolThread.occurrences, List.countP_append, List.countP_singleton, eq_comm]
  have hle := List.countP_le_length (l := leaks)
    (p := fun l => l.stackTrace.stackTrace = leak.stackTrace.stackTrace)
  have hcount : (m.stackTraceToOccurrences.lookup leak.stackTrace.stackTrace).getD 0 + 1 =
      UInt32.ofNat (PatrolThread.occurrences leaks leak.stackTrace.stackTrace + 1) := by
    rw [h.occurrences, UInt32.ofNat_add]
    split_ifs with hnone
    · rw [hnone]
      rfl
    · rfl
  have hone : UInt32.ofNat (PatrolThread.occurrences leaks leak.stackTrace.stackTrace + 1) = 1 ↔
      PatrolThread.occurrences leaks leak.stackTrace.stackTrace + 1 = 1 := by
    have hlt : PatrolThread.occurrences leaks leak.stackTrace.stackTrace + 1 < 2 ^ 32 :=
      (Nat.succ_le_succ hle).trans_lt hfit
    rw [← UInt32.toNat_inj, UInt32.toNat_ofNat', Nat.mod_eq_of_lt hlt]
    rfl
  constructor
  · intro trace
    rw [hsucc]
    dsimp only [Monitor.announce]
    rw [UnorderedMap.lookup_insert_eq, hcount]
    split_ifs with htrace
    · omega
    · rw [htrace]
    · exact (h.occurrences trace).trans (if_pos ‹_›)
    · exact (h.occurrences trace).trans (if_neg ‹_›)
  · have hline : leakLines (m.announce leak).progressStream = leakLines m.progressStream ++
        [lineOf leak (PatrolThread.occurrences leaks leak.stackTrace.stackTrace + 1)] := by
      dsimp only [Monitor.announce]
      rw [leakLines, List.filter_append, ← leakLines, hcount]
      congr 1
      simp only [hone, lineOf]
      split_ifs <;> rfl
    rw [hline]
    exact h.lines.concat leak

theorem Announced.foldl {m : Monitor} {leaks : List FoundLeak} (h : m.Announced leaks)
    (new : List FoundLeak) (hfit : (leaks ++ new).length < 2 ^ 32) :
    (new.foldl Monitor.announce m).Announced (leaks ++ new) := by
  induction new generalizing m leaks with
  | nil => rwa [List.append_nil]
  | cons leak new ih =>
      rw [← List.concat_append, List.concat_eq_append] at hfit ⊢
      refine ih (h.announce leak ?_) hfit
      simp only [List.length_append, List.length_singleton] at hfit
      omega

/-- Other lines announce nothing. -/
theorem leakLines_rates (stats : AllocationStats) (reportTime : ℚ) :
    leakLines (rates stats reportTime) = [] := by
  unfold rates
  split_ifs <;> rfl

theorem Announced.afterUpdate {m : Monitor} {leaks : List FoundLeak} (h : m.Announced leaks)
    (settings : PatrolSettings) (stats : AllocationStats) (new : List FoundLeak) (reportTime : ℚ)
    (hfit : (leaks ++ new).length < 2 ^ 32) :
    (m.afterUpdate settings stats new reportTime).Announced (leaks ++ new) := by
  have hrates : ({ m with
      progressStream := m.progressStream ++ rates stats reportTime } : Monitor).Announced leaks := by
    refine ⟨h.occurrences, ?_⟩
    dsimp only
    rw [leakLines, List.filter_append, ← leakLines, ← leakLines, leakLines_rates, List.append_nil]
    exact h.lines
  have hfold := hrates.foldl new hfit
  unfold Monitor.afterUpdate Monitor.schedule
  dsimp only
  split_ifs <;> exact ⟨hfold.occurrences, hfold.lines⟩

end Monitor

namespace Monitored

variable {settings : PatrolSettings} {sort : (Leak → Leak → Bool) → List Leak → List Leak}
  {s s' : Monitored}

theorem announced_step {leaks : List FoundLeak} (h : s.monitor.Announced leaks) {a : Action}
    (hstep : s.Step settings sort a s')
    (hfit : (leaks ++ s.system.foundLeaks settings.toEnvironment (s.event settings a)).length <
      2 ^ 32) :
    s'.monitor.Announced
      (leaks ++ s.system.foundLeaks settings.toEnvironment (s.event settings a)) := by
  cases a with
  | call e =>
      obtain ⟨hcall, system, -, rfl⟩ := step_call hstep
      rw [event, foundLeaks_call hcall, List.append_nil]
      exact h
  | enterLoop =>
      obtain ⟨-, rfl⟩ := step_enterLoop hstep
      rw [event, foundLeaks_call (by simp), List.append_nil]
      exact ⟨h.occurrences, h.lines⟩
  | update time reportTime lightOrder watchedOrder =>
      obtain ⟨-, -, -, -, hmonitor⟩ := step_update hstep
      rw [hmonitor]
      exact h.afterUpdate settings _ _ reportTime hfit
  | makeReport order =>
      obtain ⟨-, stats, reportTime, -, rfl⟩ := step_makeReport hstep
      rw [event, foundLeaks_call (by simp), List.append_nil]
      exact ⟨h.occurrences, h.lines⟩

/-- An entry has leaks exactly when one was found of it. -/
theorem hasLeaks_iff {t : AllocationTable} {leaks : List FoundLeak} (h : Tallies t leaks)
    (hfit : leaks.length < 2 ^ 32) (env : Environment) (w : TraceEntry) :
    (∃ i ∈ t.info? w, i.hasLeaks env = .true) ↔ ∃ leak ∈ leaks, leak.stackTrace = w := by
  have hlt : (foundOf w leaks).length < 2 ^ 32 := (List.length_filter_le ..).trans_lt hfit
  have htally : (t.info w).countLeakedCloselyWatchedAllocations.toNat =
      (foundOf w leaks).length := by
    rw [(h w).1, UInt32.toNat_ofNat', Nat.mod_eq_of_lt hlt]
  have hexists : (∃ leak ∈ leaks, leak.stackTrace = w) ↔ 0 < (foundOf w leaks).length := by
    simp [List.length_pos_iff_exists_mem, foundOf]
  have hpos : ∀ i : WatchedStackTraceInfo, i.hasLeaks env = .true ↔
      0 < i.countLeakedCloselyWatchedAllocations.toNat := by
    intro i
    unfold WatchedStackTraceInfo.hasLeaks
    split_ifs with hleaked hfinished
    · exact iff_of_true rfl (UInt32.lt_iff_toNat_lt.mp hleaked)
    · exact iff_of_false (by simp) (fun hlt => hleaked (UInt32.lt_iff_toNat_lt.mpr hlt))
    · exact iff_of_false (by simp) (fun hlt => hleaked (UInt32.lt_iff_toNat_lt.mpr hlt))
  rw [hexists, ← htally]
  cases hi : t.info? w with
  | none =>
      rw [info, hi]
      simp
  | some i =>
      rw [info, hi]
      simp [hpos]

section Run

variable (x : Execution Initial (Step settings sort))
  (hfit : (leaksBefore (program x) x.length).length < 2 ^ 32)
include hfit

theorem announced_at : ∀ n ≤ x.length,
    (x.state n).monitor.Announced (leaksBefore (program x) n) := by
  refine x.holds_at _ ?_ fun n hn h => ?_
  · rw [x.starts.monitor]
    exact ⟨fun trace => rfl, fun i => rfl⟩
  · rw [leaksBefore_succ]
    refine announced_step h (x.steps n hn) ?_
    have hprefix := leaksBefore_mono (program x) (Nat.succ_le_of_lt hn)
    rw [leaksBefore_succ] at hprefix
    exact hprefix.length_le.trans_lt hfit

/-- The progress stream announces every leak once, in the order in which the
passes found them, with the number of leaks of its stack trace so far. -/
theorem progress_exact : ∀ n ≤ x.length,
    Announces (leakLines (x.state n).monitor.progressStream) (leaksBefore (program x) n) :=
  fun n hn => (announced_at x hfit n hn).lines

end Run

theorem progress_exact_reportRun :
    Announces (leakLines (reportRun.state 10).monitor.progressStream)
      (leaksBefore (program reportRun) 10) :=
  progress_exact reportRun (by decide +kernel) 10 (by decide)

end Monitored

end PatrolThread

end AllocCounter
