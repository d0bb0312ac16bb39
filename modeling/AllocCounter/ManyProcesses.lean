import AllocCounter.WatchWord
import AllocCounter.LeakSoundness

/-!
# Processes that share the watch word

Every process of a run with a shared watch word goes through a run of its own, in
which the others only write the word. When no process is initialized after a
start, the word never goes back, so no block with a record is freed or moved while
not watching, which is what the patrol relies on.
-/
namespace AllocCounter.World

open PatrolThread AllocCounter.System

variable {P S : Type} [DecidableEq P] [DecidableEq S] {settings : P → PatrolSettings}
  {sort : (Leak → Leak → Bool) → List Leak → List Leak}

/-- What a process sees of an event: its own actions, and the word after those of
the others. -/
def seen (w' : World P S) (p : P) : WorldEvent P S → Action
  | .act q a => if q = p then a else .call (.setWatchState (w'.process p).watchState)
  | .openFile _ _ | .writeFile _ _ | .mapFile _ _ | .startOpen _ | .startClose _ _ =>
      .call (.setWatchState (w'.process p).watchState)

variable {w w' : World P S} {e : WorldEvent P S} {p : P}

omit [DecidableEq P] [DecidableEq S] in
theorem monitored_store (w : World P S) (value : WatchState) (p : P) :
    ((w.store value).process p).monitored =
      ((w.process p).setWatchState ((w.store value).process p).watchState).monitored := by
  rw [watchState_store]
  unfold store
  dsimp only
  split_ifs <;> rfl

/-- Below the word, a process stays as it is while others act. -/
theorem monitored_other (hstep : w.Step settings sort e w') (hother : ∀ a, e ≠ .act p a) :
    (w'.process p).monitored =
      ((w.process p).setWatchState (w'.process p).watchState).monitored := by
  cases step_cases hstep with
  | lost _ q hnone hact hphase =>
      rw [watchState_goto, monitored_goto]
      rfl
  | opened q hphase =>
      change ((w.goto q .opened).process p).monitored =
        ((w.process p).setWatchState ((w.goto q .opened).process p).watchState).monitored
      rw [watchState_goto, monitored_goto]
      rfl
  | wrote q hphase =>
      rw [monitored_store]
      unfold Process.setWatchState
      rw [monitored_goto]
  | mapped q value hphase hfile =>
      rw [process_setProcess]
      split_ifs with heq
      · rw [heq]
        rfl
      · rfl
  | acted q a monitored hnone hmonitored hwatch =>
      have hne : p ≠ q := fun heq => hother a (heq ▸ rfl)
      rw [process_setProcess, if_neg hne]
      rfl
  | autoStarted q monitored htime hmonitored hphase =>
      have hne : p ≠ q := fun heq => hother .enterLoop (heq ▸ rfl)
      rw [monitored_store]
      unfold Process.setWatchState
      rw [process_setProcess, if_neg hne]
  | startOpened s phase => rfl
  | startFailed s => rfl
  | started s =>
      rw [monitored_store]
      rfl

theorem monitored_act {a : Action} (hstep : w.Step settings sort (.act p a) w') :
    (w.process p).monitored.Step (settings p) sort a (w'.process p).monitored := by
  cases step_cases hstep with
  | lost _ q hnone hact hphase => exact absurd rfl (hact p a)
  | acted _ _ monitored hnone hmonitored hwatch =>
      rw [process_setProcess, if_pos rfl]
      exact hmonitored
  | autoStarted _ monitored htime hmonitored hphase =>
      -- the step of the process has set the word already
      obtain ⟨-, hafter⟩ := Monitored.step_enterLoop hmonitored
      have hwatching : monitored.system.watchState = .watching := by
        rw [hafter]
        exact if_pos htime
      rw [monitored_store, watchState_store, phase_setProcess_monitored, if_pos hphase]
      unfold Process.setWatchState
      rw [process_setProcess, if_pos rfl, ← hwatching]
      exact hmonitored

/-- Every step is a step of each process. -/
theorem monitored_step (hstep : w.Step settings sort e w') (p : P) :
    (w.process p).monitored.Step (settings p) sort (seen w' p e) (w'.process p).monitored := by
  have hstays : (∀ a, e ≠ .act p a) → (w.process p).monitored.Step (settings p) sort
      (.call (.setWatchState (w'.process p).watchState)) (w'.process p).monitored :=
    fun hother => ⟨⟨by simp, trivial⟩, congrArg some (monitored_other hstep hother).symm⟩
  cases e with
  | act q a =>
      by_cases heq : q = p
      · subst heq
        rw [seen, if_pos rfl]
        exact monitored_act hstep
      · rw [seen, if_neg heq]
        exact hstays fun a' h => heq (WorldEvent.act.inj h).1
  | openFile | writeFile | mapFile | startOpen | startClose => exact hstays fun a h => by cases h

/-- What a process goes through in a run of all of them. -/
def project (x : Execution (Initial (P := P) (S := S)) (Step settings sort)) (p : P) :
    Execution Monitored.Initial (Monitored.Step (settings p) sort) where
  length := x.length
  state n := ((x.state n).process p).monitored
  event n := seen (x.state (n + 1)) p (x.event n)
  starts := x.starts.monitored p
  steps n hn := monitored_step (x.steps n hn) p

theorem mapped_step (hstep : w.Step settings sort e w') (h : (w.process p).phase = .mapped) :
    (w'.process p).phase = .mapped := by
  have hother : ∀ {q : P}, (w.process q).phase ≠ .mapped → p ≠ q := by
    intro q hphase heq
    exact hphase (heq ▸ h)
  cases step_cases hstep with
  | lost _ q hnone hact hphase =>
      rw [phase_goto, if_neg (hother hphase)]
      exact h
  | opened q hphase =>
      change ((w.goto q .opened).process p).phase = .mapped
      rw [phase_goto, if_neg (hother (by simp [hphase]))]
      exact h
  | wrote q hphase =>
      rw [phase_store, phase_goto, if_neg (hother (by simp [hphase]))]
      exact h
  | mapped q value hphase hfile =>
      rw [process_setProcess]
      split_ifs
      · rfl
      · exact h
  | acted q a monitored hnone hmonitored hwatch =>
      rw [phase_setProcess_monitored]
      exact h
  | autoStarted q monitored htime hmonitored hphase =>
      rw [phase_store, phase_setProcess_monitored]
      exact h
  | startOpened s phase => exact h
  | startFailed s => exact h
  | started s =>
      rw [phase_store]
      exact h

section Run

variable {x : Execution (Initial (P := P) (S := S)) (Step settings sort)}
  (hsettled : ∀ k < x.length, ∀ m < k, Starts settings (x.event m) →
    ¬ Initializes settings (x.event k))
include hsettled

/-- A process that watches goes on watching. -/
theorem watching_succ {n : ℕ} (hn : n < x.length)
    (h : ((x.state n).process p).watchState = .watching) :
    ((x.state (n + 1)).process p).watchState = .watching := by
  obtain ⟨hphase, m, hm, hstarts, hnone⟩ := (watching_iff x n hn.le p).mp h
  refine (watching_iff x (n + 1) hn p).mpr ⟨mapped_step (x.steps n hn) hphase, m,
    hm.trans (Nat.lt_succ_self n), hstarts, fun k hmk hk => ?_⟩
  cases Nat.lt_succ_iff_lt_or_eq.mp hk with
  | inl hlt => exact hnone k hmk hlt
  | inr heq => exact heq ▸ hsettled n hn m hm hstarts

theorem dormant_project (p : P) : ∀ n ≤ x.length,
    ((x.state n).process p).monitored.system.Dormant := by
  refine x.holds_at _ ?_ fun n hn h => ?_
  · intro _ a
    rw [(x.starts.monitored p).system.table]
    exact ⟨rfl, rfl⟩
  have hsystem := Monitored.system_step (monitored_step (x.steps n hn) p)
  by_cases hword : ((x.state n).process p).monitored.event (settings p)
      (seen (x.state (n + 1)) p (x.event n)) = .setWatchState .notWatching
  · -- the word was not watching before, so the table is empty
    rw [hword] at hsystem
    have hafter := Option.some.inj hsystem.2
    have hstays : ((x.state n).process p).watchState = .notWatching := by
      cases hwatch : ((x.state n).process p).watchState with
      | notWatching => rfl
      | watching =>
          have hsucc := watching_succ hsettled hn hwatch
          rw [Process.watchState, ← hafter] at hsucc
          cases hsucc
    intro _ a
    rw [← hafter]
    exact h hstays a
  · exact h.step hword hsystem

/-- When no process is initialized after a start, no process frees or moves a block
with a record while not watching. -/
theorem synced_of_settled (p : P) : ∀ n < x.length,
    ((Monitored.program (project x p)).state n).Synced
      ((Monitored.program (project x p)).event n) := by
  intro n hn
  have hdormant := dormant_project hsettled p n hn.le
  change ((x.state n).process p).monitored.system.Synced _
  cases (Monitored.program (project x p)).event n with
  | reallocate => exact fun hnot => hdormant hnot _
  | free => exact fun hnot => hdormant hnot _
  | setWatchState | allocate | patrol => exact trivial

end Run

/-- Both processes are initialized, watching is started, and a block is freed. -/
def settledEvents : List (WorldEvent Bool ℕ) :=
  [.openFile false true, .openFile true true, .writeFile true true, .writeFile false true,
    .mapFile false true, .startOpen 0, .mapFile true true, .startClose 0 true,
    .act false (.call (.allocate (callerAt 0) ⟨8, 1, 7, .unnecessary⟩ 0x1000 8)),
    .act false (.call (.free (callerAt 1) 0x1000 true 0 0))]

def settledRun : Execution (Initial (P := Bool) (S := ℕ)) (Step (fun _ => Monitored.reportSettings)
    fun lt l => l.insertionSort fun a b => lt b a = false) :=
  Execution.ofEvents settledEvents (.startOpen 0) initial_twoProcesses (by decide +kernel)

theorem synced_of_settled_settledRun :
    ((Monitored.program (project settledRun false)).state 9).Synced
      ((Monitored.program (project settledRun false)).event 9) :=
  synced_of_settled (by decide +kernel) false 9 (by decide)

end AllocCounter.World
