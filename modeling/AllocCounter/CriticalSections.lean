import AllocCounter.TableChanges
import AllocCounter.ThreadInterleavings

/-!
# How long the lock is held

Under the lock a call changes the table, calls one real function at most and gives
the lock back. What a wrapped function that is called meanwhile does is to forward.
A count of the steps that are left goes down with each step of the thread that has
the lock, and up with the calls that the real functions make only.
-/
namespace AllocCounter.Threads

open Reentrancy

def Calls : Action → Prop
  | .call _ _ => True
  | _ => False

instance : (a : Action) → Decidable (Calls a)
  | .call _ _ => inferInstanceAs (Decidable True)
  | .advance _ | .spawn | .callPatrol _ | .others _ => inferInstanceAs (Decidable False)

variable {T : Type*} [DecidableEq T] {env : Environment} {v v' : Thread} {f : WrappedFrame}
  {below : List Frame} {r : Reads} {s s' : Threads T} {t : T} {e : T × Action}

/-- The steps of its own that a call takes until it gives the lock back, or until it
returns if one below it has the lock. -/
def stepsLeft : Frame → ℕ
  | .wrapped f =>
      match f.point with
      | .entered => 3
      | .bypassing => 2
      | .returning => 1
      | .locked _ => 6
      | .acting calls _ => 1 + 4 * calls.length
      | .unguarded _ | .guarded _ | .unlocked => 0
  | .patrol _ point =>
      match point with
      | .locked => 2
      | .updated => 1
      | .entered | .returning => 0
  | .monitorMain _ => 0

def stepsToUnlock : List Frame → ℕ
  | [] => 0
  | f :: below => stepsLeft f + if f.holds then 0 else stepsToUnlock below

/-- Under the lock one real function is called at most. -/
theorem length_underLock (table : AllocationTable) (c : Caller) (r : Reads) (site : CallSite)
    (called : InstrumentedCall) : (underLock env table c r site called).2.1.length ≤ 1 := by
  cases called with
  | allocate size alignment callback zeroFill =>
      unfold underLock
      dsimp only
      generalize InstrumentedCall.request site size alignment zeroFill = q
      have hcase := AllocationTable.instrumentedAllocate_cases env table c q.size.toUInt32
        q.alignment.toUInt32 q.fingerprint (fun _ => r.answer) q.zeroFill
      generalize table.instrumentedAllocate env c _ _ _ _ _ = o at hcase ⊢
      cases hcase with
      | untracked | light => exact le_rfl
      | watched => cases q.zeroFill <;> exact le_rfl
  | reallocate oldMemory newRequestedSize callback =>
      have hcase := AllocationTable.instrumentedReallocate_cases env table c oldMemory
        newRequestedSize fun _ => r.answer
      unfold underLock
      dsimp only
      generalize table.instrumentedReallocate env c oldMemory newRequestedSize _ = o at hcase ⊢
      cases hcase with
      | untracked | light | crashed | replaced => exact le_rfl
      | kept => exact Nat.zero_le 1
  | free memory callback =>
      have hcase := AllocationTable.instrumentedFree_cases table c memory fun _ => r.answer
      unfold underLock
      dsimp only
      generalize table.instrumentedFree c memory _ = o at hcase ⊢
      cases hcase with
      | null => exact Nat.zero_le 1
      | untracked | light | watched => exact le_rfl

theorem inside_of_holds {stack : List Frame} (h : Sound stack)
    (hholds : stack.any Frame.holds = true) : insideLibrary stack = true := by
  cases hin : insideLibrary stack with
  | true => rfl
  | false =>
      rw [h.holds_eq_false hin] at hholds
      cases hholds

/-- A thread that has the lock comes nearer to giving it back. -/
theorem stepsToUnlock_advance (h : Inv v) (hheld : v.holdsMutex = true)
    (hafter : v'.holdsMutex = true) (hstep : ThreadStep env v (.advance r) v') :
    stepsToUnlock v'.stack < stepsToUnlock v.stack := by
  have hholds : v.stack.any Frame.holds = true := h.mutex.symm.trans hheld
  have hinside := inside_of_holds h.sound hholds
  cases hstep with
  | enterLoop r below hs =>
      have hfree := (h.monitorMain hs).2.2
      rw [hheld] at hfree
      cases hfree
  | patrol r function point below v' hs hstep =>
      have hfits := (hs ▸ h.sound).1
      cases hstep with
      | lock hfree => exact absurd hheld (Bool.eq_false_iff.mp hfree)
      | update | report => simp [hs, stepsToUnlock, stepsLeft, Frame.holds]
      | unlock => cases hafter
      | finish => simp [hs, Frame.holds, hfits.2] at hholds
  | wrapped r f below v' hs hstep =>
      have hflag : v.inLibrary = true := h.flag.trans hinside
      have hfits : f.Fits below := (hs ▸ h.sound).1
      cases hstep with
      | test c hp hc =>
          have hbypass : AllocationTable.Bypasses c := .inl (hc ▸ hflag)
          rw [if_pos hbypass]
          split_ifs <;> simp [hs, hp, Thread.goto, stepsToUnlock, stepsLeft, Frame.holds]
      | bypass hp =>
          simp [hs, hp, Thread.goto, Thread.forward, stepsToUnlock, stepsLeft, Frame.holds]
      | guard c hp hout =>
          rw [hflag] at hout
          cases hout
      | lock c hp hfree => exact absurd hheld (Bool.eq_false_iff.mp hfree)
      | act c hp table calls crashes hact =>
          have hcalls : calls.length ≤ 1 := by
            have hlength :
                (underLock env v.table c r f.site (f.asked.wrapped env)).2.1.length ≤ 1 :=
              length_underLock _ _ _ _ _
            rwa [hact] at hlength
          simp only [hs, hp, Thread.goto, stepsToUnlock, stepsLeft, Frame.holds, if_true]
          omega
      | forward calls crashes hp =>
          simp [hs, hp, Thread.goto, Thread.forward, stepsToUnlock, stepsLeft, Frame.holds]
      | memalign alignment size calls crashes hp =>
          simp only [hs, hp, Thread.goto, Thread.push, stepsToUnlock, stepsLeft, Frame.holds,
            List.length_cons, if_true, Bool.false_eq_true, if_false]
          omega
      | unlock => cases hafter
      | leave hp hin =>
          have hout : insideLibrary below = false := (hp ▸ hfits.2 :)
          simp [hs, hp, Frame.holds, (hs ▸ h.sound).2.holds_eq_false hout] at hholds
      | finish hp => simp [hs, hp, stepsToUnlock, stepsLeft, Frame.holds]
  | idle a hidle =>
      cases hs : v.stack with
      | nil => simp [hs] at hholds
      | cons frame below =>
          cases frame with
          | wrapped | patrol => exact absurd ⟨by simp [hs, InCall], trivial⟩ hidle
          | monitorMain inBody =>
              have hfree := (h.monitorMain hs).2.2
              rw [hheld] at hfree
              cases hfree

/-- Other than by advancing, a thread that has the lock can only call. -/
theorem stepsToUnlock_call (h : Inv v) (hheld : v.holdsMutex = true) {a : Action}
    (hnot : ¬ Advances a) (hstep : ThreadStep env v a v') :
    stepsToUnlock v'.stack ≤ stepsToUnlock v.stack + 3 * if Calls a then 1 else 0 := by
  cases hstep with
  | call asked site =>
      simp [Thread.push, stepsToUnlock, stepsLeft, Frame.holds, Calls, Nat.add_comm]
  | spawn hs =>
      have hholds : v.stack.any Frame.holds = true := h.mutex.symm.trans hheld
      simp [hs] at hholds
  | callPatrol function below hs =>
      have hfree := (h.monitorMain hs).2.2
      rw [hheld] at hfree
      cases hfree
  | enterLoop | wrapped | patrol => exact absurd trivial hnot
  | idle a hidle => exact Nat.le_add_right _ _

theorem stepsToUnlock_takes (hfree : v.holdsMutex = false) (hafter : v'.holdsMutex = true)
    {a : Action} (hstep : ThreadStep env v a v') : stepsToUnlock v'.stack ≤ 6 := by
  have hnot : v.holdsMutex ≠ true := Bool.eq_false_iff.mp hfree
  cases hstep with
  | wrapped r f below v' hs h =>
      cases h with
      | lock c hp => simp [Thread.goto, stepsToUnlock, stepsLeft, Frame.holds]
      | unlock => cases hafter
      | _ => exact absurd hafter hnot
  | patrol r function point below v' hs h =>
      cases h with
      | lock => simp [stepsToUnlock, stepsLeft, Frame.holds]
      | unlock => cases hafter
      | _ => exact absurd hafter hnot
  | _ => exact absurd hafter hnot

theorem stepsToUnlock_pos {stack : List Frame} (h : stack.any Frame.holds = true) :
    0 < stepsToUnlock stack := by
  induction stack with
  | nil => cases h
  | cons f below ih =>
      rw [stepsToUnlock]
      cases hf : f.holds with
      | false =>
          rw [List.any_cons, hf, Bool.false_or] at h
          exact Nat.lt_of_lt_of_le (ih h) (Nat.le_add_left _ _)
      | true =>
          refine Nat.lt_of_lt_of_le ?_ (Nat.le_add_right _ _)
          cases f with
          | wrapped f =>
              cases hp : f.point with
              | locked | acting => simp [stepsLeft, hp]
              | _ => simp [Frame.holds, hp] at hf
          | patrol function point =>
              cases point with
              | locked | updated => simp [stepsLeft]
              | _ => cases hf
          | monitorMain => cases hf

/-- A thread that has just got the lock is near giving it back. -/
theorem stepsToUnlock_of_takes (hstep : s.Step env e s') (hbefore : s.holder ≠ some t)
    (hafter : s'.holder = some t) : stepsToUnlock (s'.stack t) ≤ 6 := by
  obtain ⟨u, a⟩ := e
  obtain ⟨hallowed, v, hv, rfl⟩ := step_iff.mp hstep
  have hown := threadStep hv hallowed.1
  by_cases hut : t = u
  · subst hut
    have hself := thread_put_self s t v
    have hfree : (s.thread t).holdsMutex = false := decide_eq_false hbefore
    have hstack : (s.put t v).stack t = v.stack := congrArg Thread.stack hself
    rw [hstack]
    refine stepsToUnlock_takes hfree ?_ hown
    exact (congrArg Thread.holdsMutex hself).symm.trans (decide_eq_true hafter)
  · -- another thread's step gives the lock to no one else
    have hthread := thread_put_of_ne hut fun hv' => not_holder hallowed hown hut hv'
    have hheld : decide (s.holder = some t) = true :=
      (congrArg Thread.holdsMutex hthread).symm.trans (decide_eq_true hafter)
    exact absurd (of_decide_eq_true hheld) hbefore

/-- The own steps of a thread that has the lock are paid for by what it comes nearer
to giving it back. -/
theorem Consistent.stepsToUnlock_step (h : s.Consistent) (hstep : s.Step env e s')
    (hheld : s.holder = some t) (hafter : s'.holder = some t) :
    stepsToUnlock (s'.stack t) + (if e.1 = t ∧ Advances e.2 then 1 else 0) ≤
      stepsToUnlock (s.stack t) + 3 * if e.1 = t ∧ Calls e.2 then 1 else 0 := by
  obtain ⟨u, a⟩ := e
  obtain ⟨hallowed, v, hv, rfl⟩ := step_iff.mp hstep
  by_cases hut : u = t
  · subst hut
    have hown := threadStep hv hallowed.1
    have hself := thread_put_self s u v
    have hstack : (s.put u v).stack u = v.stack := congrArg Thread.stack hself
    have hv' : v.holdsMutex = true :=
      (congrArg Thread.holdsMutex hself).symm.trans (decide_eq_true hafter)
    have hheld' : (s.thread u).holdsMutex = true := decide_eq_true hheld
    rw [hstack]
    by_cases hadvances : Advances a
    · cases a with
      | advance r =>
          have hlt : stepsToUnlock v.stack < stepsToUnlock (s.stack u) :=
            stepsToUnlock_advance (h u) hheld' hv' hown
          simpa [Advances, Calls] using Nat.succ_le_of_lt hlt
      | _ => exact absurd hadvances id
    · have hle : stepsToUnlock v.stack ≤
          stepsToUnlock (s.stack u) + 3 * if Calls a then 1 else 0 :=
        stepsToUnlock_call (h u) hheld' hadvances hown
      simpa [hadvances] using hle
  · have hstack : (s.put u v).stack t = s.stack t := Function.update_of_ne (Ne.symm hut) _ _
    simp [hut, hstack]

variable (x : Execution Initial (Step (T := T) env))

/-- How many steps a thread has taken of its calls, and how many calls it has made. -/
def advancesOf (t : T) (n : ℕ) : ℕ := x.occurrences (fun _ e => e.1 = t ∧ Advances e.2) n

def callsOf (t : T) (n : ℕ) : ℕ := x.occurrences (fun _ e => e.1 = t ∧ Calls e.2) n

/-- While a thread has the lock it takes five more of its own steps at most, and three
for each call that the real functions make. -/
theorem advancesOf_le {i j : ℕ} (hij : i < j) (hj : j ≤ x.length)
    (hbefore : (x.state i).holder ≠ some t)
    (hheld : ∀ k, i < k → k ≤ j → (x.state k).holder = some t) :
    advancesOf x t j ≤
      advancesOf x t (i + 1) + 5 + 3 * (callsOf x t j - callsOf x t (i + 1)) := by
  have htakes : stepsToUnlock ((x.state (i + 1)).stack t) ≤ 6 :=
    stepsToUnlock_of_takes (x.steps i (hij.trans_le hj)) hbefore
      (hheld (i + 1) (Nat.lt_succ_self i) hij)
  have hpotential : ∀ k, i + 1 ≤ k → k ≤ j →
      stepsToUnlock ((x.state k).stack t) + advancesOf x t k + 3 * callsOf x t (i + 1) ≤
        stepsToUnlock ((x.state (i + 1)).stack t) + advancesOf x t (i + 1) + 3 * callsOf x t k := by
    intro k hik
    induction k, hik using Nat.le_induction with
    | base => exact fun _ => le_rfl
    | succ k hik ih =>
        intro hkj
        have hk := Nat.lt_of_succ_le (hkj.trans hj)
        have hstep := (consistent_at x k hk.le).stepsToUnlock_step (x.steps k hk)
          (hheld k hik (Nat.le_of_succ_le hkj)) (hheld (k + 1) (Nat.lt_succ_of_lt hik) hkj)
        have hbefore := ih (Nat.le_of_succ_le hkj)
        simp only [advancesOf, callsOf, Execution.occurrences_succ] at hbefore ⊢
        omega
  have hlast := hpotential j hij le_rfl
  have hpos := stepsToUnlock_pos
    (((consistent_at x j hj).holds_iff t).mpr (hheld j hij le_rfl))
  have hcalls : callsOf x t (i + 1) ≤ callsOf x t j := x.occurrences_mono _ hij
  omega

/-- A thread that takes the lock has given it back when it has taken six more of its
own steps, and three for each call that the real functions made meanwhile. -/
theorem lock_given_back {i j : ℕ} (hij : i < j) (hj : j ≤ x.length)
    (hbefore : (x.state i).holder ≠ some t) (htakes : (x.state (i + 1)).holder = some t)
    (hsteps : advancesOf x t (i + 1) + 6 + 3 * (callsOf x t j - callsOf x t (i + 1)) ≤
      advancesOf x t j) : ∃ k, i + 1 < k ∧ k ≤ j ∧ (x.state k).holder ≠ some t := by
  by_contra hnone
  push Not at hnone
  have hheld : ∀ k, i < k → k ≤ j → (x.state k).holder = some t := by
    intro k hik hkj
    cases Nat.lt_or_eq_of_le (Nat.succ_le_of_lt hik) with
    | inl hlt => exact hnone k hlt hkj
    | inr heq => exact heq ▸ htakes
  have hle := advancesOf_le x hij hj hbefore hheld
  omega

/-- The first thread of the run goes on for a while. -/
def longerRun : Execution (Initial (T := Bool)) (Step .default) :=
  Execution.ofEvents (twoThreadEvents ++ List.replicate 2 (false, .advance {})) (false, .spawn)
    initial_idleThreads (by decide +kernel)

theorem lock_given_back_longerRun :
    ∃ k, 7 < k ∧ k ≤ 15 ∧ (longerRun.state k).holder ≠ some false :=
  lock_given_back longerRun (by decide : 6 < 15) (by decide) (by decide +kernel)
    (by decide +kernel) (by decide +kernel)

end AllocCounter.Threads
