import AllocCounter.Monitor
import Mathlib.Tactic.Linarith

/-!
# When leak reports are made

The rounds of the patrol thread that find a report due are spaced by the report
interval, counted from the first round, and each of them makes its report before
the next round.
-/
namespace AllocCounter.PatrolThread.Monitored

variable {settings : PatrolSettings} {sort : (Leak → Leak → Bool) → List Leak → List Leak}
  {s s' : Monitored}

/-- The time that a round reads. -/
def updateTime : Action → Option ℚ
  | .update _ reportTime _ _ => some reportTime
  | .call _ | .enterLoop | .makeReport _ => none

variable (settings) in
/-- The round is past the time of the next report. -/
def FindsDue (s : Monitored) (a : Action) : Prop :=
  ∃ reportTime ∈ updateTime a,
    (s.monitor.schedule settings reportTime).timeNextLeakReport < reportTime

variable (settings) in
instance (s : Monitored) (a : Action) : Decidable (s.FindsDue settings a) :=
  decidable_of_iff ((updateTime a).any fun reportTime =>
    (s.monitor.schedule settings reportTime).timeNextLeakReport < reportTime) (by
      simp [FindsDue, Option.any_eq_true])

def MakesReport (_ : Monitored) (a : Action) : Prop := ∃ order, a = .makeReport order

instance (s : Monitored) : (a : Action) → Decidable (s.MakesReport a)
  | .makeReport order => isTrue ⟨order, rfl⟩
  | .call _ | .enterLoop | .update _ _ _ _ => isFalse (by simp [MakesReport])

theorem exists_of_updateTime {a : Action} {r : ℚ} (h : updateTime a = some r) :
    ∃ time lightOrder watchedOrder, a = .update time r lightOrder watchedOrder := by
  cases a with
  | update time reportTime lightOrder watchedOrder =>
      exact ⟨time, lightOrder, watchedOrder, Option.some.inj h ▸ rfl⟩
  | call | enterLoop | makeReport => exact nomatch h

/-- The visits of the leaks do not touch the schedule. -/
theorem timeNextLeakReport_foldl_announce (leaks : List FoundLeak) (m : Monitor) :
    (leaks.foldl Monitor.announce m).timeNextLeakReport = m.timeNextLeakReport := by
  induction leaks generalizing m with
  | nil => rfl
  | cons leak leaks ih => exact ih (m.announce leak)

/-- What a round does to the schedule. -/
theorem afterUpdate_schedule (settings : PatrolSettings) (m : Monitor) (stats : AllocationStats)
    (leaks : List FoundLeak) (reportTime : ℚ) :
    (m.afterUpdate settings stats leaks reportTime).timeNextLeakReport =
        (m.schedule settings reportTime).timeNextLeakReport ∧
      (m.afterUpdate settings stats leaks reportTime).phase =
        if (m.schedule settings reportTime).timeNextLeakReport < reportTime then
          .reporting stats reportTime
        else .sleeping := by
  have hnext : ((leaks.foldl Monitor.announce { m with
      progressStream := m.progressStream ++ Monitor.rates stats reportTime }).schedule settings
        reportTime).timeNextLeakReport = (m.schedule settings reportTime).timeNextLeakReport := by
    unfold Monitor.schedule
    rw [timeNextLeakReport_foldl_announce]
    dsimp only
    split_ifs
    · rfl
    · exact timeNextLeakReport_foldl_announce leaks _
  unfold Monitor.afterUpdate
  dsimp only
  rw [hnext]
  exact ⟨rfl, rfl⟩

/-- A round, as the schedule sees it. -/
theorem step_updateTime {a : Action} {r : ℚ} (h : s.Step settings sort a s')
    (hr : updateTime a = some r) :
    s.monitor.phase = .sleeping ∧ s.clock ≤ r ∧ s'.clock = r ∧
      s'.monitor.timeNextLeakReport = (s.monitor.schedule settings r).timeNextLeakReport ∧
      ((s.FindsDue settings a ∧ ∃ stats, s'.monitor.phase = .reporting stats r) ∨
        ¬ s.FindsDue settings a ∧ s'.monitor.phase = .sleeping) := by
  obtain ⟨time, lightOrder, watchedOrder, rfl⟩ := exists_of_updateTime hr
  obtain ⟨hphase, hclock, -, hclock', hmonitor⟩ := step_update h
  obtain ⟨hnext, hafter⟩ := afterUpdate_schedule settings s.monitor
    s.system.table.stats (s.system.foundLeaks settings.toEnvironment
      (.patrol time lightOrder watchedOrder)) r
  rw [hmonitor]
  refine ⟨hphase, hclock, hclock', hnext, ?_⟩
  rw [hafter]
  by_cases hdue : (s.monitor.schedule settings r).timeNextLeakReport < r
  · rw [if_pos hdue]
    exact .inl ⟨⟨r, rfl, hdue⟩, _, rfl⟩
  · rw [if_neg hdue]
    refine .inr ⟨?_, rfl⟩
    rintro ⟨r', hr', hdue'⟩
    exact hdue (Option.some.inj hr' ▸ hdue')

/-- What is not a round leaves the clock, and leaves the schedule unless it makes
the report. -/
theorem step_other {a : Action} (h : s.Step settings sort a s') (hr : updateTime a = none) :
    s'.clock = s.clock ∧
      ((¬ s.MakesReport a ∧ s'.monitor.timeNextLeakReport = s.monitor.timeNextLeakReport ∧
          (s'.monitor.phase = s.monitor.phase ∨
            s.monitor.phase = .starting ∧ s'.monitor.phase = .sleeping)) ∨
        s.MakesReport a ∧ ∃ stats r, s.monitor.phase = .reporting stats r ∧
          s'.monitor.phase = .sleeping ∧
          s'.monitor.timeNextLeakReport = r + settings.leakReportInterval.toNat) := by
  cases a with
  | call e =>
      obtain ⟨-, system, -, rfl⟩ := step_call h
      exact ⟨rfl, .inl ⟨by simp [MakesReport], rfl, .inl rfl⟩⟩
  | enterLoop =>
      obtain ⟨hphase, rfl⟩ := step_enterLoop h
      exact ⟨rfl, .inl ⟨by simp [MakesReport], rfl, .inr ⟨hphase, rfl⟩⟩⟩
  | update => exact nomatch hr
  | makeReport order =>
      obtain ⟨-, stats, r, hphase, rfl⟩ := step_makeReport h
      exact ⟨rfl, .inr ⟨⟨order, rfl⟩, stats, r, hphase, rfl, rfl⟩⟩

variable (x : Execution Initial (Step settings sort))

/-- The interval to the next report is counted from this round: it is the first
one, or it found a report due. -/
def Anchors (m : ℕ) (r : ℚ) : Prop :=
  updateTime (x.event m) = some r ∧
    ((x.state m).FindsDue settings (x.event m) ∨ ∀ k < m, updateTime (x.event k) = none)

/-- No round in between found a report due. -/
def NoneDue (m n : ℕ) : Prop :=
  ∀ k, m < k → k < n → ¬ (x.state k).FindsDue settings (x.event k)

/-- What the variables of the thread say before event `n`. -/
inductive Scheduled (n : ℕ) : Prop
  | unscheduled : (∀ k < n, updateTime (x.event k) = none) →
      (x.state n).monitor.timeNextLeakReport = 0 →
      (∀ stats r, (x.state n).monitor.phase ≠ .reporting stats r) → Scheduled n
  | waiting (m : ℕ) (r : ℚ) : m < n → Anchors x m r → NoneDue x m n → 0 ≤ r →
      (x.state n).monitor.phase = .sleeping →
      (x.state n).monitor.timeNextLeakReport = r + settings.leakReportInterval.toNat →
      Scheduled n
  | due (m : ℕ) (r : ℚ) (stats : AllocationStats) : m < n → Anchors x m r → NoneDue x m n →
      0 ≤ r → (x.state n).monitor.phase = .reporting stats r → Scheduled n

variable {x}

theorem interval_pos (settings : PatrolSettings) : (0 : ℚ) < settings.leakReportInterval.toNat := by
  have hpos := UInt32.lt_iff_toNat_lt.mp settings.leakReportInterval_pos
  exact_mod_cast hpos

theorem not_findsDue {a : Action} (hr : updateTime a = none) : ¬ s.FindsDue settings a := by
  rintro ⟨r, hmem, -⟩
  rw [hr] at hmem
  exact nomatch hmem

theorem NoneDue.succ {m n : ℕ} (h : NoneDue x m n)
    (hn : ¬ (x.state n).FindsDue settings (x.event n)) : NoneDue x m (n + 1) := by
  intro k hmk hk
  cases Nat.lt_succ_iff_lt_or_eq.mp hk with
  | inl hlt => exact h k hmk hlt
  | inr heq => exact heq ▸ hn

theorem noneDue_next (n : ℕ) : NoneDue x n (n + 1) := by
  intro k hnk hk
  omega

/-- A time that is scheduled stays. -/
theorem schedule_of_ne {m : Monitor} (h : m.timeNextLeakReport ≠ 0) (r : ℚ) :
    m.schedule settings r = m := if_neg h

theorem clock_nonneg (x : Execution Initial (Step settings sort)) :
    ∀ n ≤ x.length, 0 ≤ (x.state n).clock := by
  refine x.holds_at _ x.starts.clock fun n hn h => ?_
  cases hr : updateTime (x.event n) with
  | none => rwa [(step_other (x.steps n hn) hr).1]
  | some r =>
      obtain ⟨-, hle, hclock, -⟩ := step_updateTime (x.steps n hn) hr
      rw [hclock]
      exact h.trans hle

theorem Scheduled.succ {n : ℕ} (hn : n < x.length) (h : Scheduled x n) : Scheduled x (n + 1) := by
  have hstep := x.steps n hn
  have hinterval := interval_pos settings
  cases hr : updateTime (x.event n) with
  | none =>
      have hnot : ¬ (x.state n).FindsDue settings (x.event n) := not_findsDue hr
      obtain ⟨-, hother⟩ := step_other hstep hr
      cases h with
      | unscheduled hnone htime hphase =>
          rcases hother with ⟨-, hsame, hphase'⟩ | ⟨-, stats, r, hreporting, -⟩
          · refine .unscheduled (fun k hk => ?_) (hsame.trans htime) fun stats r hreporting => ?_
            · cases Nat.lt_succ_iff_lt_or_eq.mp hk with
              | inl hlt => exact hnone k hlt
              | inr heq => exact heq ▸ hr
            · rcases hphase' with hkept | ⟨-, hsleeping⟩
              · exact hphase stats r (hkept.symm.trans hreporting)
              · rw [hsleeping] at hreporting
                exact nomatch hreporting
          · exact absurd hreporting (hphase stats r)
      | waiting m r hmn hanchor hnone hr0 hphase htime =>
          rcases hother with ⟨-, hsame, hphase'⟩ | ⟨-, stats, r', hreporting, -⟩
          · refine .waiting m r (hmn.trans (Nat.lt_succ_self n)) hanchor (hnone.succ hnot) hr0 ?_
              (hsame.trans htime)
            exact hphase'.elim (fun hkept => hkept.trans hphase) And.right
          · rw [hphase] at hreporting
            exact nomatch hreporting
      | due m r stats hmn hanchor hnone hr0 hphase =>
          rcases hother with ⟨-, -, hphase'⟩ | ⟨-, stats', r', hreporting, hsleeping, htime⟩
          · refine .due m r stats (hmn.trans (Nat.lt_succ_self n)) hanchor (hnone.succ hnot) hr0 ?_
            rcases hphase' with hkept | ⟨hstarting, -⟩
            · exact hkept.trans hphase
            · rw [hphase] at hstarting
              exact nomatch hstarting
          · rw [hphase, Phase.reporting.injEq] at hreporting
            exact .waiting m r (hmn.trans (Nat.lt_succ_self n)) hanchor (hnone.succ hnot) hr0
              hsleeping (hreporting.2 ▸ htime)
  | some r =>
      obtain ⟨hsleeping, hle, -, htime', hdue⟩ := step_updateTime hstep hr
      have hr0 : 0 ≤ r := (clock_nonneg x n hn.le).trans hle
      cases h with
      | unscheduled hnone htime hphase =>
          -- the first round schedules a report in the future
          have hnext : ((x.state n).monitor.schedule settings r).timeNextLeakReport =
              r + settings.leakReportInterval.toNat := by
            rw [Monitor.schedule, if_pos htime]
          rcases hdue with ⟨⟨r', hr', hlt⟩, -⟩ | ⟨hnot, hphase'⟩
          · rw [hr] at hr'
            rw [← Option.some.inj hr', hnext] at hlt
            linarith
          · exact .waiting n r (Nat.lt_succ_self n) ⟨hr, .inr hnone⟩ (noneDue_next n) hr0 hphase'
              (htime'.trans hnext)
      | waiting m r₀ hmn hanchor hnone hr₀ hphase htime =>
          have hne : (x.state n).monitor.timeNextLeakReport ≠ 0 := by
            rw [htime]
            linarith
          rw [schedule_of_ne hne] at htime'
          rcases hdue with ⟨hfinds, stats, hreporting⟩ | ⟨hnot, hphase'⟩
          · exact .due n r stats (Nat.lt_succ_self n) ⟨hr, .inl hfinds⟩ (noneDue_next n) hr0
              hreporting
          · exact .waiting m r₀ (hmn.trans (Nat.lt_succ_self n)) hanchor (hnone.succ hnot) hr₀
              hphase' (htime'.trans htime)
      | due m r₀ stats hmn hanchor hnone hr₀ hphase =>
          rw [hphase] at hsleeping
          exact nomatch hsleeping

theorem scheduled_at (x : Execution Initial (Step settings sort)) :
    ∀ n ≤ x.length, Scheduled x n := by
  refine x.holds_at _ ?_ fun n hn h => h.succ hn
  refine .unscheduled (fun k hk => absurd hk (Nat.not_lt_zero k)) ?_ fun stats r => ?_
  · rw [x.starts.monitor]
  · rw [x.starts.monitor]
    exact fun h => nomatch h

theorem Anchors.unique {m m' n : ℕ} {r r' : ℚ} (h : Anchors x m r) (h' : Anchors x m' r')
    (hnone : NoneDue x m n) (hnone' : NoneDue x m' n) (hm : m < n) (hm' : m' < n) :
    m = m' ∧ r = r' := by
  obtain ⟨htime, hfirst⟩ := h
  obtain ⟨htime', hfirst'⟩ := h'
  obtain hlt | rfl | hgt := Nat.lt_trichotomy m m'
  · cases hfirst' with
    | inl hdue => exact absurd hdue (hnone m' hlt hm')
    | inr hnoTime =>
        rw [hnoTime m hlt] at htime
        exact nomatch htime
  · exact ⟨rfl, Option.some.inj (htime.symm.trans htime')⟩
  · cases hfirst with
    | inl hdue => exact absurd hdue (hnone' m hgt hm)
    | inr hnoTime =>
        rw [hnoTime m' hgt] at htime'
        exact nomatch htime'

theorem findsDue_iff {n : ℕ} (hn : n < x.length) {r : ℚ} (hr : updateTime (x.event n) = some r) :
    (x.state n).FindsDue settings (x.event n) ↔
      ∃ m < n, ∃ r₀, Anchors x m r₀ ∧ NoneDue x m n ∧
        r₀ + settings.leakReportInterval.toNat < r := by
  have hinterval := interval_pos settings
  have hsleeping := (step_updateTime (x.steps n hn) hr).1
  have hdue : (x.state n).FindsDue settings (x.event n) ↔
      ((x.state n).monitor.schedule settings r).timeNextLeakReport < r := by
    refine ⟨?_, fun h => ⟨r, hr, h⟩⟩
    rintro ⟨r', hr', hlt⟩
    rw [hr] at hr'
    exact Option.some.inj hr' ▸ hlt
  rw [hdue]
  cases scheduled_at x n hn.le with
  | unscheduled hnone htime =>
      rw [Monitor.schedule, if_pos htime]
      refine iff_of_false (by dsimp only; linarith) ?_
      rintro ⟨m, hm, r₀, ⟨htime', -⟩, -⟩
      rw [hnone m hm] at htime'
      exact nomatch htime'
  | waiting m r₀ hmn hanchor hnone hr₀ hphase htime =>
      have hne : (x.state n).monitor.timeNextLeakReport ≠ 0 := by
        rw [htime]
        linarith
      rw [schedule_of_ne hne, htime]
      constructor
      · exact fun hlt => ⟨m, hmn, r₀, hanchor, hnone, hlt⟩
      · rintro ⟨m', hmn', r', hanchor', hnone', hlt⟩
        obtain ⟨-, rfl⟩ := hanchor.unique hanchor' hnone hnone' hmn hmn'
        exact hlt
  | due m r₀ stats hmn hanchor hnone hr₀ hphase =>
      rw [hphase] at hsleeping
      exact nomatch hsleeping

/-- The reports found due and not made yet. -/
def pending : Phase → ℕ
  | .reporting _ _ => 1
  | .starting | .sleeping => 0

theorem pending_step {a : Action} (h : s.Step settings sort a s') :
    (if s.FindsDue settings a then 1 else 0) + pending s.monitor.phase =
      (if s.MakesReport a then 1 else 0) + pending s'.monitor.phase := by
  cases hr : updateTime a with
  | none =>
      rw [if_neg (not_findsDue hr)]
      obtain ⟨-, hother⟩ := step_other h hr
      rcases hother with ⟨hnot, -, hsame | ⟨hstarting, hsleeping⟩⟩ |
        ⟨hmakes, stats, r, hreporting, hsleeping, -⟩
      · rw [if_neg hnot, hsame]
      · rw [if_neg hnot, hstarting, hsleeping]
        rfl
      · rw [if_pos hmakes, hreporting, hsleeping]
        rfl
  | some r =>
      obtain ⟨time, lightOrder, watchedOrder, rfl⟩ := exists_of_updateTime hr
      have hnot : ¬ s.MakesReport (.update time r lightOrder watchedOrder) := by
        simp [MakesReport]
      obtain ⟨hsleeping, -, -, -, hdue⟩ := step_updateTime h hr
      rw [if_neg hnot, hsleeping]
      rcases hdue with ⟨hfinds, stats, hreporting⟩ | ⟨hnotDue, hsleeping'⟩
      · rw [if_pos hfinds, hreporting]
        rfl
      · rw [if_neg hnotDue, hsleeping']

/-- A round finds a report due exactly when it reads more than the interval past
the round that the interval is counted from; and every report that was found due
is made once, before the next round. -/
theorem reports_on_schedule (x : Execution Initial (Step settings sort)) :
    (∀ n < x.length, ∀ r, updateTime (x.event n) = some r →
      ((x.state n).FindsDue settings (x.event n) ↔
        ∃ m < n, ∃ r₀, Anchors x m r₀ ∧ NoneDue x m n ∧
          r₀ + settings.leakReportInterval.toNat < r)) ∧
    (∀ n ≤ x.length, x.occurrences (FindsDue settings) n =
      x.occurrences MakesReport n + pending (x.state n).monitor.phase) ∧
    ∀ n < x.length, ∀ r, updateTime (x.event n) = some r →
      pending (x.state n).monitor.phase = 0 := by
  refine ⟨fun n hn r hr => findsDue_iff hn hr, x.holds_at _ ?_ fun n hn h => ?_,
    fun n hn r hr => ?_⟩
  · rw [x.starts.monitor]
    rfl
  · have hstep := pending_step (x.steps n hn)
    rw [x.occurrences_succ, x.occurrences_succ]
    omega
  · rw [(step_updateTime (x.steps n hn) hr).1]
    rfl

end AllocCounter.PatrolThread.Monitored
