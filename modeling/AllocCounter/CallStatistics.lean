import AllocCounter.ReportSchedule

/-!
# Statistics of the calls

The counters of `AllocationStats` count the calls that do not go past the table,
and the watch time is that of the first of them, whichever it is. From them come
the rates that the patrol thread writes.
-/
namespace AllocCounter

namespace AllocationTable

variable {env : Environment} {t : AllocationTable}

@[simp] theorem getOrCreate_stats (t : AllocationTable) (fingerprint : CallstackFingerprint)
    (traces : SuspiciousStackTracesTable) (trace : StackTrace) :
    (t.getOrCreate fingerprint traces trace).1.stats = t.stats := by
  unfold getOrCreate
  split <;> rfl

@[simp] theorem startWatched_stats (t : AllocationTable) (memory : Address)
    (alloc : CloselyWatchedAllocation) : (t.startWatched memory alloc).stats = t.stats := by
  simp [startWatched]

@[simp] theorem finishWatched_stats (t : AllocationTable) (memory : Address)
    (alloc : CloselyWatchedAllocation) (f : WatchedStackTraceInfo → WatchedStackTraceInfo) :
    (t.finishWatched memory alloc f).stats = t.stats := by
  simp [finishWatched]

/-- The statistics after an allocation that the table sees. -/
def countAllocation (t : AllocationTable) (c : Caller) (fingerprint : CallstackFingerprint) :
    AllocationStats :=
  let stats := t.stats.ensureEnabled c.clock
  { stats with
    allocationCount := stats.allocationCount + 1
    allocationWithSuspiciousFingerprintCount := stats.allocationWithSuspiciousFingerprintCount +
      if fingerprint ∈ t.suspiciousFingerprints then 1 else 0 }

theorem instrumentedAllocate_stats (c : Caller) (size alignment : UInt32)
    (fingerprint : CallstackFingerprint) (real : RealCall → Address) (zeroFill : ZeroFill) :
    (t.instrumentedAllocate env c size alignment fingerprint real zeroFill).table.stats =
      if Bypasses c then t.stats else t.countAllocation c fingerprint := by
  unfold instrumentedAllocate countAllocation
  split_ifs with hbypass hsuspicious
  · rfl
  · obtain ⟨traces, htraces⟩ := Finmap.mem_iff.mp hsuspicious
    rw [htraces]
    dsimp only
    split_ifs <;> simp
  · rw [Finmap.lookup_eq_none.mpr hsuspicious]
    dsimp only
    rw [UInt64.add_zero]
    split_ifs <;> rfl

theorem instrumentedReallocate_stats {c : Caller} {oldMemory : Address} {newRequestedSize : UInt64}
    {real : RealCall → Address} {o : Outcome}
    (h : t.instrumentedReallocate env c oldMemory newRequestedSize real = some o) :
    o.table.stats = if Bypasses c then t.stats else
      { t.stats.ensureEnabled c.clock with
        reallocCount := (t.stats.ensureEnabled c.clock).reallocCount + 1 } := by
  unfold instrumentedReallocate at h
  split_ifs at h ⊢
  · rw [← Option.some.inj h]
  · dsimp only at h
    split at h
    · rw [← Option.some.inj h]
    · split at h
      · split_ifs at h <;> rw [← Option.some.inj h]
      · rw [← Option.some.inj h]

theorem instrumentedFree_stats (c : Caller) (memory : Address) (real : RealCall → Address) :
    (t.instrumentedFree c memory real).1.stats =
      if memory = 0 ∨ Bypasses c then t.stats else
        { t.stats.ensureEnabled c.clock with
          freeCount := (t.stats.ensureEnabled c.clock).freeCount + 1 } := by
  unfold instrumentedFree
  by_cases hnull : memory = 0
  · rw [if_pos hnull, if_pos (.inl hnull)]
  rw [if_neg hnull]
  dsimp only
  by_cases hbypass : Bypasses c
  · rw [if_pos hbypass, if_pos (.inr hbypass)]
  rw [if_neg hbypass, if_neg (not_or.mpr ⟨hnull, hbypass⟩)]
  split
  · rfl
  · split
    · rw [finishWatched_stats]
    · rfl

end AllocationTable

namespace System

open AllocationTable

variable {env : Environment} {s s' : System}

/-- The clock of a call that the table sees. -/
def countedClock : Event → Option ℚ
  | .allocate c _ _ _ | .reallocate c _ _ _ _ => if Bypasses c then none else some c.clock
  | .free c memory _ _ _ => if memory = 0 ∨ Bypasses c then none else some c.clock
  | .setWatchState _ | .patrol _ _ _ => none

/-- The event is an allocation with a suspicious fingerprint. -/
def AllocatesSuspicious (s : System) : Event → Prop
  | .allocate c r _ _ => ¬ Bypasses c ∧ r.fingerprint ∈ s.table.suspiciousFingerprints
  | _ => False

def Reallocates (_ : System) : Event → Prop
  | .reallocate c _ _ _ _ => ¬ Bypasses c
  | _ => False

def FreesMemory (_ : System) : Event → Prop
  | .free c memory _ _ _ => ¬ (memory = 0 ∨ Bypasses c)
  | _ => False

instance (s : System) : (e : Event) → Decidable (AllocatesSuspicious s e)
  | .allocate _ _ _ _ => inferInstanceAs (Decidable (_ ∧ _))
  | .setWatchState _ | .free _ _ _ _ _ | .reallocate _ _ _ _ _ | .patrol _ _ _ =>
      inferInstanceAs (Decidable False)

instance (s : System) : (e : Event) → Decidable (Reallocates s e)
  | .reallocate _ _ _ _ _ => inferInstanceAs (Decidable (¬ _))
  | .setWatchState _ | .free _ _ _ _ _ | .allocate _ _ _ _ | .patrol _ _ _ =>
      inferInstanceAs (Decidable False)

instance (s : System) : (e : Event) → Decidable (FreesMemory s e)
  | .free _ _ _ _ _ => inferInstanceAs (Decidable (¬ _))
  | .setWatchState _ | .reallocate _ _ _ _ _ | .allocate _ _ _ _ | .patrol _ _ _ =>
      inferInstanceAs (Decidable False)

/-- What an event does to the statistics. -/
structure CountsEvent (s : System) (e : Event) (stats stats' : AllocationStats) : Prop where
  allocations : stats'.allocationCount = stats.allocationCount + if Allocates s e then 1 else 0
  suspicious : stats'.allocationWithSuspiciousFingerprintCount =
    stats.allocationWithSuspiciousFingerprintCount + if AllocatesSuspicious s e then 1 else 0
  frees : stats'.freeCount = stats.freeCount + if FreesMemory s e then 1 else 0
  reallocs : stats'.reallocCount = stats.reallocCount + if Reallocates s e then 1 else 0
  enabled : stats'.enabled = (stats.enabled || (countedClock e).isSome)
  time : stats'.timeWatchEnabled =
    if stats.enabled = true then stats.timeWatchEnabled
    else (countedClock e).getD stats.timeWatchEnabled

theorem ensureEnabled_spec (stats : AllocationStats) (time : ℚ) :
    (stats.ensureEnabled time).enabled = true ∧ (stats.ensureEnabled time).timeWatchEnabled =
        (if stats.enabled = true then stats.timeWatchEnabled else time) ∧
      (stats.ensureEnabled time).allocationCount = stats.allocationCount ∧
      (stats.ensureEnabled time).allocationWithSuspiciousFingerprintCount =
        stats.allocationWithSuspiciousFingerprintCount ∧
      (stats.ensureEnabled time).freeCount = stats.freeCount ∧
      (stats.ensureEnabled time).reallocCount = stats.reallocCount := by
  unfold AllocationStats.ensureEnabled
  split_ifs with henabled
  · exact ⟨henabled, rfl, rfl, rfl, rfl, rfl⟩
  · exact ⟨rfl, rfl, rfl, rfl, rfl, rfl⟩

theorem countsEvent_none {e : Event} (stats : AllocationStats) (h : countedClock e = none) :
    CountsEvent s e stats stats := by
  cases e with
  | setWatchState | patrol =>
      constructor <;> simp [Allocates, AllocatesSuspicious, Reallocates, FreesMemory, countedClock]
  | allocate c r answer capacity =>
      have hbypass : Bypasses c := by
        by_contra hnot
        rw [countedClock, if_neg hnot] at h
        cases h
      constructor <;> simp [Allocates, AllocatesSuspicious, Reallocates, FreesMemory, countedClock,
        hbypass]
  | reallocate c oldMemory newRequestedSize answer capacity =>
      have hbypass : Bypasses c := by
        by_contra hnot
        rw [countedClock, if_neg hnot] at h
        cases h
      constructor <;> simp [Allocates, AllocatesSuspicious, Reallocates, FreesMemory, countedClock,
        hbypass]
  | free c memory released answer capacity =>
      have hbypass : memory = 0 ∨ Bypasses c := by
        by_contra hnot
        rw [countedClock, if_neg hnot] at h
        cases h
      constructor <;> simp [Allocates, AllocatesSuspicious, Reallocates, FreesMemory, countedClock,
        hbypass]

theorem countsEvent_step {e : Event} (hstep : s.Step env e s') :
    CountsEvent s e s.table.stats s'.table.stats := by
  have hnext := hstep.2
  cases e with
  | setWatchState w =>
      rw [← Option.some.inj hnext]
      exact countsEvent_none _ rfl
  | patrol time lightOrder watchedOrder =>
      obtain ⟨-, -, rfl⟩ := step_patrol hstep
      dsimp only
      rw [(patrol_reports env s.table time lightOrder watchedOrder).stats]
      exact countsEvent_none _ rfl
  | allocate c r answer capacity =>
      rw [← Option.some.inj hnext]
      dsimp only
      rw [instrumentedAllocate_stats]
      split_ifs with hbypass
      · exact countsEvent_none _ (if_pos hbypass)
      · obtain ⟨henabled, htime, hallocations, hsuspicious, hfrees, hreallocs⟩ :=
          ensureEnabled_spec s.table.stats c.clock
        constructor <;> simp [Allocates, AllocatesSuspicious, Reallocates, FreesMemory,
          countedClock, countAllocation, hbypass, henabled, htime, hallocations, hsuspicious,
          hfrees, hreallocs]
  | reallocate c oldMemory newRequestedSize answer capacity =>
      obtain ⟨o, ho, hs'⟩ := Option.map_eq_some_iff.mp hnext
      rw [← hs']
      dsimp only
      rw [instrumentedReallocate_stats ho]
      split_ifs with hbypass
      · exact countsEvent_none _ (if_pos hbypass)
      · obtain ⟨henabled, htime, hallocations, hsuspicious, hfrees, hreallocs⟩ :=
          ensureEnabled_spec s.table.stats c.clock
        constructor <;> simp [Allocates, AllocatesSuspicious, Reallocates, FreesMemory,
          countedClock, hbypass, henabled, htime, hallocations, hsuspicious, hfrees, hreallocs]
  | free c memory released answer capacity =>
      rw [← Option.some.inj hnext]
      change CountsEvent s _ s.table.stats
        (s.table.instrumentedFree c memory fun _ => answer).1.stats
      rw [instrumentedFree_stats]
      split_ifs with hbypass
      · exact countsEvent_none _ (if_pos hbypass)
      · obtain ⟨henabled, htime, hallocations, hsuspicious, hfrees, hreallocs⟩ :=
          ensureEnabled_spec s.table.stats c.clock
        constructor <;> simp [Allocates, AllocatesSuspicious, Reallocates, FreesMemory,
          countedClock, hbypass, henabled, htime, hallocations, hsuspicious, hfrees, hreallocs]

section Run

variable (x : Execution Initial (Step env))

/-- The first call that the table sees is among the first `n` events, and reads
the clock at `time`. -/
def FirstCounted (n : ℕ) (time : ℚ) : Prop :=
  ∃ i < n, countedClock (x.event i) = some time ∧ ∀ j < i, countedClock (x.event j) = none

/-- The statistics are those of the first `n` events. -/
structure ExactStats (n : ℕ) (stats : AllocationStats) : Prop where
  allocations : stats.allocationCount = UInt64.ofNat (x.occurrences Allocates n)
  suspicious : stats.allocationWithSuspiciousFingerprintCount =
    UInt64.ofNat (x.occurrences AllocatesSuspicious n)
  frees : stats.freeCount = UInt64.ofNat (x.occurrences FreesMemory n)
  reallocs : stats.reallocCount = UInt64.ofNat (x.occurrences Reallocates n)
  enabled : stats.enabled = true ∧ FirstCounted x n stats.timeWatchEnabled ∨
    stats.enabled = false ∧ ∀ j < n, countedClock (x.event j) = none

variable {x}

theorem FirstCounted.unique {n : ℕ} {time time' : ℚ} (h : FirstCounted x n time)
    (h' : FirstCounted x n time') : time = time' := by
  obtain ⟨i, hi, htime, hnone⟩ := h
  obtain ⟨i', hi', htime', hnone'⟩ := h'
  obtain hlt | rfl | hgt := Nat.lt_trichotomy i i'
  · rw [hnone' i hlt] at htime
    exact nomatch htime
  · exact Option.some.inj (htime.symm.trans htime')
  · rw [hnone i' hgt] at htime'
    exact nomatch htime'

theorem ofNat_occurrences_succ {p : System → Event → Prop} [∀ s e, Decidable (p s e)] {n : ℕ}
    {count count' : UInt64} (h : count = UInt64.ofNat (x.occurrences p n))
    (h' : count' = count + if p (x.state n) (x.event n) then 1 else 0) :
    count' = UInt64.ofNat (x.occurrences p (n + 1)) := by
  rw [h', h, x.occurrences_succ, UInt64.ofNat_add]
  split_ifs <;> rfl

theorem ExactStats.succ {n : ℕ} {stats stats' : AllocationStats} (h : ExactStats x n stats)
    (hcounts : CountsEvent (x.state n) (x.event n) stats stats') : ExactStats x (n + 1) stats' where
  allocations := ofNat_occurrences_succ h.allocations hcounts.allocations
  suspicious := ofNat_occurrences_succ h.suspicious hcounts.suspicious
  frees := ofNat_occurrences_succ h.frees hcounts.frees
  reallocs := ofNat_occurrences_succ h.reallocs hcounts.reallocs
  enabled := by
    have henabled := hcounts.enabled
    have htime := hcounts.time
    cases h.enabled with
    | inl hwatching =>
        obtain ⟨hon, i, hi, hfirst⟩ := hwatching
        rw [hon, Bool.true_or] at henabled
        rw [if_pos hon] at htime
        exact .inl ⟨henabled, i, hi.trans (Nat.lt_succ_self n), htime ▸ hfirst⟩
    | inr hnone =>
        obtain ⟨hoff, hnone⟩ := hnone
        rw [hoff, Bool.false_or] at henabled
        rw [if_neg (by simp [hoff])] at htime
        cases hclock : countedClock (x.event n) with
        | some time =>
            rw [hclock] at henabled htime
            exact .inl ⟨henabled, n, Nat.lt_succ_self n, htime ▸ hclock, hnone⟩
        | none =>
            rw [hclock] at henabled
            refine .inr ⟨henabled, fun j hj => ?_⟩
            cases Nat.lt_succ_iff_lt_or_eq.mp hj with
            | inl hlt => exact hnone j hlt
            | inr heq => exact heq ▸ hclock

theorem exactStats_at (x : Execution Initial (Step env)) :
    ∀ n ≤ x.length, ExactStats x n (x.state n).table.stats := by
  refine x.holds_at _ ?_ fun n hn h => h.succ (countsEvent_step (x.steps n hn))
  rw [x.starts.table]
  exact ⟨rfl, rfl, rfl, rfl, .inr ⟨rfl, fun j hj => absurd hj (Nat.not_lt_zero j)⟩⟩

theorem occurrences_lt {p : System → Event → Prop} [∀ s e, Decidable (p s e)] {n : ℕ}
    (hn : n ≤ x.length) (hlength : x.length < 2 ^ 64) : x.occurrences p n < 2 ^ 64 :=
  (le_trans (Nat.count_le _) hn).trans_lt hlength

/-- In every state of a run the statistics count the calls that the table saw,
among them those with a suspicious fingerprint, and the watch time is that of the
first. -/
theorem countedCalls_at (x : Execution Initial (Step env)) (hlength : x.length < 2 ^ 64) :
    ∀ n ≤ x.length,
      (x.state n).table.stats.allocationCount.toNat = x.occurrences Allocates n ∧
      (x.state n).table.stats.allocationWithSuspiciousFingerprintCount.toNat =
        x.occurrences AllocatesSuspicious n ∧
      (x.state n).table.stats.freeCount.toNat = x.occurrences FreesMemory n ∧
      (x.state n).table.stats.reallocCount.toNat = x.occurrences Reallocates n ∧
      x.occurrences AllocatesSuspicious n ≤ x.occurrences Allocates n ∧
      ((x.state n).table.stats.enabled = true ↔ ∃ time, FirstCounted x n time) ∧
      ∀ time, FirstCounted x n time → (x.state n).table.stats.timeWatchEnabled = time := by
  intro n hn
  have hexact := exactStats_at x n hn
  have htoNat : ∀ {p : System → Event → Prop} [∀ s e, Decidable (p s e)] {count : UInt64},
      count = UInt64.ofNat (x.occurrences p n) → count.toNat = x.occurrences p n := by
    intro p _ count hcount
    rw [hcount, UInt64.toNat_ofNat', Nat.mod_eq_of_lt (occurrences_lt hn hlength)]
  refine ⟨htoNat hexact.allocations, htoNat hexact.suspicious, htoNat hexact.frees,
    htoNat hexact.reallocs, ?_, ?_⟩
  · refine Nat.count_mono_left fun i _ => ?_
    cases x.event i with
    | allocate c r answer capacity => exact And.left
    | setWatchState | reallocate | free | patrol => exact id
  · cases hexact.enabled with
    | inl hon =>
        exact ⟨iff_of_true hon.1 ⟨_, hon.2⟩, fun time htime => hon.2.unique htime⟩
    | inr hoff =>
        have hnever : ∀ time, ¬ FirstCounted x n time := by
          rintro time ⟨i, hi, htime, -⟩
          rw [hoff.2 i hi] at htime
          exact nomatch htime
        refine ⟨iff_of_false (by simp [hoff.1]) fun ⟨time, htime⟩ => hnever time htime,
          fun time htime => absurd htime (hnever time)⟩

end Run

end System

namespace PatrolThread.Monitored

open AllocationTable AllocCounter.System

variable {settings : PatrolSettings} {sort : (Leak → Leak → Bool) → List Leak → List Leak}

/-- The lines that event `n` writes. -/
def written (x : Execution Initial (Step settings sort)) (n : ℕ) : List ProgressLine :=
  (x.state (n + 1)).monitor.progressStream.drop (x.state n).monitor.progressStream.length

/-- The visits of the leaks add no rates. -/
theorem foldl_announce_progressStream (leaks : List FoundLeak) (m : Monitor) :
    ∃ lines, (leaks.foldl Monitor.announce m).progressStream = m.progressStream ++ lines ∧
      ∀ a f r, .rates a f r ∉ lines := by
  induction leaks generalizing m with
  | nil => exact ⟨[], (List.append_nil _).symm, by simp⟩
  | cons leak leaks ih =>
      obtain ⟨lines, hlines, hnone⟩ := ih (m.announce leak)
      have hline : ∃ line, (m.announce leak).progressStream = m.progressStream ++ [line] ∧
          ∀ a f r, line ≠ .rates a f r := by
        refine ⟨_, rfl, fun a f r => ?_⟩
        split_ifs <;> simp
      obtain ⟨line, hstream, hne⟩ := hline
      refine ⟨line :: lines, ?_, fun a f r hmem => ?_⟩
      · rw [List.foldl_cons, hlines, hstream, List.append_assoc, List.singleton_append]
      · cases List.mem_cons.mp hmem with
        | inl heq => exact hne a f r heq.symm
        | inr hrest => exact hnone a f r hrest

theorem rates_mem_afterUpdate (m : Monitor) (stats : AllocationStats) (leaks : List FoundLeak)
    (reportTime a f r : ℚ) :
    .rates a f r ∈ (m.afterUpdate settings stats leaks reportTime).progressStream.drop
        m.progressStream.length ↔
      .rates a f r ∈ Monitor.rates stats reportTime := by
  obtain ⟨lines, hlines, hnone⟩ := foldl_announce_progressStream leaks
    { m with progressStream := m.progressStream ++ Monitor.rates stats reportTime }
  have hstream : (m.afterUpdate settings stats leaks reportTime).progressStream =
      m.progressStream ++ (Monitor.rates stats reportTime ++ lines) := by
    rw [← List.append_assoc, ← hlines]
    unfold Monitor.afterUpdate Monitor.schedule
    dsimp only
    split_ifs <;> rfl
  rw [hstream, List.drop_left, List.mem_append, or_iff_left (hnone a f r)]

/-- A round writes rates exactly when the first call that the table saw is a
second back, and they are the numbers of the calls so far over the time since. -/
theorem rates_exact (x : Execution Initial (Step settings sort)) (hlength : x.length < 2 ^ 64) :
    ∀ n < x.length, ∀ now, updateTime (x.event n) = some now → ∀ a f r,
      .rates a f r ∈ written x n ↔ ∃ time, FirstCounted (program x) n time ∧ time + 1 ≤ now ∧
        a = (program x).occurrences Allocates n / (now - time) ∧
        f = (program x).occurrences FreesMemory n / (now - time) ∧
        r = (program x).occurrences Reallocates n / (now - time) := by
  intro n hn now hnow a f r
  obtain ⟨time, lightOrder, watchedOrder, hevent⟩ := exists_of_updateTime hnow
  have hstep := x.steps n hn
  rw [hevent] at hstep
  obtain ⟨-, -, -, -, hmonitor⟩ := step_update hstep
  obtain ⟨hallocations, -, hfrees, hreallocs, -, henabled, htime⟩ :=
    countedCalls_at (program x) hlength n hn.le
  change (x.state n).system.table.stats.allocationCount.toNat = _ at hallocations
  change (x.state n).system.table.stats.freeCount.toNat = _ at hfrees
  change (x.state n).system.table.stats.reallocCount.toNat = _ at hreallocs
  change (x.state n).system.table.stats.enabled = true ↔ _ at henabled
  change ∀ time, _ → (x.state n).system.table.stats.timeWatchEnabled = time at htime
  rw [written, hmonitor, rates_mem_afterUpdate, Monitor.rates]
  constructor
  · intro hmem
    split_ifs at hmem with hon
    · obtain ⟨time₀, hfirst⟩ := henabled.mp hon.1
      have hlate := hon.2
      rw [htime time₀ hfirst] at hmem hlate
      rw [List.mem_singleton, ProgressLine.rates.injEq, hallocations, hfrees, hreallocs] at hmem
      exact ⟨time₀, hfirst, by linarith, hmem⟩
    · exact absurd hmem List.not_mem_nil
  · rintro ⟨time₀, hfirst, hlate, rfl, rfl, rfl⟩
    rw [htime time₀ hfirst, if_pos ⟨henabled.mpr ⟨time₀, hfirst⟩, by linarith⟩, List.mem_singleton,
      hallocations, hfrees, hreallocs]

theorem rates_exact_reportRun : .rates (1 / 5) 0 0 ∈ written reportRun 4 ↔
    ∃ time, FirstCounted (program reportRun) 4 time ∧ time + 1 ≤ 10 ∧
      (1 / 5 : ℚ) = (program reportRun).occurrences Allocates 4 / (10 - time) ∧
      (0 : ℚ) = (program reportRun).occurrences FreesMemory 4 / (10 - time) ∧
      (0 : ℚ) = (program reportRun).occurrences Reallocates 4 / (10 - time) :=
  rates_exact reportRun (by decide) 4 (by decide) 10 rfl (1 / 5) 0 0

end PatrolThread.Monitored

end AllocCounter
