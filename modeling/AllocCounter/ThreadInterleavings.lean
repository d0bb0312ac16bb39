import AllocCounter.LabelledExecution
import AllocCounter.Reentrancy

/-!
# Threads

Any number of threads run wrapped functions, and the patrol thread its loop, over one
table and its mutex. Each of them takes the steps of a re-entrant thread, and waits
when it comes to the lock while another thread has it. The stack of calls and the
flag of `LibraryContext` are the thread's own.
-/
namespace AllocCounter

structure Threads (T : Type*) where
  table : AllocationTable
  holder : Option T
  stack : T → List Reentrancy.Frame
  inLibrary : T → Bool

namespace Threads

open Reentrancy

/-- The next step of the thread takes the lock. -/
def takesLock : List Frame → Bool
  | .wrapped f :: _ =>
      match f.point with
      | .guarded _ => true
      | _ => false
  | .patrol _ .entered :: _ => true
  | _ => false

/-- The thread is in a wrapped function, or in a function of the table that the loop
of the patrol thread called. -/
def InCall : List Frame → Prop
  | .wrapped _ :: _ | .patrol _ _ :: _ => True
  | _ => False

instance : (stack : List Frame) → Decidable (InCall stack)
  | .wrapped _ :: _ | .patrol _ _ :: _ => inferInstanceAs (Decidable True)
  | [] | .monitorMain _ :: _ => inferInstanceAs (Decidable False)

def Advances : Action → Prop
  | .advance _ => True
  | _ => False

instance : (a : Action) → Decidable (Advances a)
  | .advance _ => inferInstanceAs (Decidable True)
  | .call _ _ | .spawn | .callPatrol _ | .others _ => inferInstanceAs (Decidable False)

instance : (a : Action) → Decidable a.ByOthers
  | .others _ => inferInstanceAs (Decidable True)
  | .call _ _ | .spawn | .callPatrol _ | .advance _ => inferInstanceAs (Decidable False)

variable {T : Type*} [DecidableEq T]

/-- What one thread sees. -/
def thread (s : Threads T) (t : T) : Thread where
  stack := s.stack t
  inLibrary := s.inLibrary t
  holdsMutex := s.holder = some t
  table := s.table

/-- A thread has taken a step. -/
def put (s : Threads T) (t : T) (v : Thread) : Threads T where
  table := v.table
  holder := if v.holdsMutex then some t else if s.holder = some t then none else s.holder
  stack := Function.update s.stack t v.stack
  inLibrary := Function.update s.inLibrary t v.inLibrary

/-- The thread has come to the lock and another one has it. -/
def Waits (s : Threads T) (t : T) : Prop :=
  takesLock (s.stack t) = true ∧ s.holder ≠ none ∧ s.holder ≠ some t

instance (s : Threads T) (t : T) : Decidable (s.Waits t) := inferInstanceAs (Decidable (_ ∧ _ ∧ _))

section

variable (env : Environment)

def next (s : Threads T) (e : T × Action) : Except Fault (Threads T) :=
  (Reentrancy.next env (s.thread e.1) e.2).map (s.put e.1)

/-- The other threads are there themselves, and a thread that waits does not go on. -/
def Allowed (s : Threads T) (e : T × Action) : Prop :=
  ¬ e.2.ByOthers ∧ (Advances e.2 → ¬ s.Waits e.1)

instance (s : Threads T) (e : T × Action) : Decidable (s.Allowed e) :=
  inferInstanceAs (Decidable (_ ∧ _))

def Step (s : Threads T) (e : T × Action) (s' : Threads T) : Prop :=
  s.Allowed e ∧ (s.next env e).toOption = some s'

def Initial (s : Threads T) : Prop :=
  s.holder = none ∧ ∀ t, s.stack t = [] ∧ s.inLibrary t = false

end

/-- The steps of a wrapped function, by the point it is at. -/
inductive WrappedStep (env : Environment) (v : Thread) (f : WrappedFrame) (below : List Frame)
    (r : Reads) : Thread → Prop
  | test (c : Caller) (hp : f.point = .entered)
      (hc : c = ⟨r.watchState, v.inLibrary, r.time, r.clock, r.stackTrace⟩) :
      WrappedStep env v f below r (v.goto f below
        (if (f.asked.wrapped env).isFreeNull then .returning
        else if AllocationTable.Bypasses c then .bypassing
        else .unguarded c))
  | bypass (hp : f.point = .bypassing) :
      WrappedStep env v f below r (v.forward f below (f.asked.wrapped env).callback .returning)
  | guard (c : Caller) (hp : f.point = .unguarded c) (hout : v.inLibrary = false) :
      WrappedStep env v f below r ({ v with inLibrary := true }.goto f below (.guarded c))
  | lock (c : Caller) (hp : f.point = .guarded c) (hfree : v.holdsMutex = false) :
      WrappedStep env v f below r ({ v with holdsMutex := true }.goto f below (.locked c))
  | act (c : Caller) (hp : f.point = .locked c) (table : AllocationTable) (calls : List RealCall)
      (crashes : Bool)
      (hact : underLock env v.table c r f.site (f.asked.wrapped env) = (table, calls, crashes)) :
      WrappedStep env v f below r ({ v with table := table }.goto f below (.acting calls crashes))
  | forward (calls : List RealCall) (crashes : Bool)
      (hp : f.point = .acting (.preferred :: calls) crashes) :
      WrappedStep env v f below r
        (v.forward f below (f.asked.wrapped env).callback (.acting calls crashes))
  | memalign (alignment size : UInt64) (calls : List RealCall) (crashes : Bool)
      (hp : f.point = .acting (.memalign alignment size :: calls) crashes) :
      WrappedStep env v f below r
        ((v.goto f below (.acting calls crashes)).push (.memalign alignment size) r.site)
  | unlock (hp : f.point = .acting [] false) :
      WrappedStep env v f below r (v.unlock.goto f below .unlocked)
  | leave (hp : f.point = .unlocked) (hin : v.inLibrary = true) :
      WrappedStep env v f below r ({ v with inLibrary := false }.goto f below .returning)
  | finish (hp : f.point = .returning) : WrappedStep env v f below r { v with stack := below }

inductive PatrolStep (env : Environment) (v : Thread) (function : PatrolFunction)
    (below : List Frame) (r : Reads) : PatrolPoint → Thread → Prop
  | lock (hfree : v.holdsMutex = false) :
      PatrolStep env v function below r .entered
        { v with holdsMutex := true, stack := .patrol function .locked :: below }
  | update (h : function = .updateAllocationStates) :
      PatrolStep env v function below r .locked
        { v with
          stack := .patrol function .updated :: below
          table := (v.table.patrolThreadUpdateAllocationStates env r.time r.lightOrder
            r.watchedOrder).1 }
  | report (h : function = .makeLeakReport) :
      PatrolStep env v function below r .locked
        { v with stack := .patrol function .updated :: below }
  | unlock :
      PatrolStep env v function below r .updated
        { v.unlock with stack := .patrol function .returning :: below }
  | finish : PatrolStep env v function below r .returning { v with stack := below }

inductive ThreadStep (env : Environment) (v : Thread) : Action → Thread → Prop
  | call (asked : AllocatorCall) (site : CallSite) :
      ThreadStep env v (.call asked site) (v.push asked site)
  | spawn (h : v.stack = []) : ThreadStep env v .spawn { v with stack := [.monitorMain false] }
  | callPatrol (function : PatrolFunction) (below : List Frame)
      (hs : v.stack = .monitorMain true :: below) :
      ThreadStep env v (.callPatrol function)
        { v with stack := .patrol function .entered :: .monitorMain true :: below }
  | enterLoop (r : Reads) (below : List Frame) (hs : v.stack = .monitorMain false :: below)
      (hout : v.inLibrary = false) :
      ThreadStep env v (.advance r)
        { v with inLibrary := true, stack := .monitorMain true :: below }
  | wrapped (r : Reads) (f : WrappedFrame) (below : List Frame) (v' : Thread)
      (hs : v.stack = .wrapped f :: below) (h : WrappedStep env v f below r v') :
      ThreadStep env v (.advance r) v'
  | patrol (r : Reads) (function : PatrolFunction) (point : PatrolPoint) (below : List Frame)
      (v' : Thread) (hs : v.stack = .patrol function point :: below)
      (h : PatrolStep env v function below r point v') : ThreadStep env v (.advance r) v'
  | idle (a : Action) (h : ¬ (InCall v.stack ∧ Advances a)) : ThreadStep env v a v

variable {env : Environment} {v v' : Thread} {f : WrappedFrame} {below : List Frame} {r : Reads}

theorem of_constructContext {v₁ : Thread} (h : v.constructContext = .ok v₁) :
    v.inLibrary = false ∧ v₁ = { v with inLibrary := true } := by
  unfold Thread.constructContext at h
  split_ifs at h with hin
  exact ⟨Bool.eq_false_iff.mpr hin, (Except.ok.inj h).symm⟩

theorem of_destroyContext {v₁ : Thread} (h : v.destroyContext = .ok v₁) :
    v.inLibrary = true ∧ v₁ = { v with inLibrary := false } := by
  unfold Thread.destroyContext at h
  split_ifs at h with hin
  exact ⟨hin, (Except.ok.inj h).symm⟩

theorem of_lock {v₁ : Thread} (h : v.lock = .ok v₁) :
    v.holdsMutex = false ∧ v₁ = { v with holdsMutex := true } := by
  unfold Thread.lock at h
  split_ifs at h with hheld
  exact ⟨Bool.eq_false_iff.mpr hheld, (Except.ok.inj h).symm⟩

theorem wrappedStep (h : advanceWrapped env v f below r = .ok v') :
    WrappedStep env v f below r v' := by
  unfold advanceWrapped at h
  cases hp : f.point with
  | entered => exact Except.ok.inj (hp ▸ h) ▸ .test _ hp rfl
  | bypassing => exact Except.ok.inj (hp ▸ h) ▸ .bypass hp
  | unguarded c =>
      rw [hp] at h
      obtain ⟨v₁, hstep, rfl⟩ := exists_of_map_eq_ok h
      obtain ⟨hout, rfl⟩ := of_constructContext hstep
      exact .guard c hp hout
  | guarded c =>
      rw [hp] at h
      obtain ⟨v₁, hstep, rfl⟩ := exists_of_map_eq_ok h
      obtain ⟨hfree, rfl⟩ := of_lock hstep
      exact .lock c hp hfree
  | locked c => exact Except.ok.inj (hp ▸ h) ▸ .act c hp _ _ _ rfl
  | acting calls crashes =>
      rw [hp] at h
      rcases calls with _ | ⟨_ | ⟨alignment, size⟩, calls⟩
      · cases crashes with
        | true => cases h
        | false => exact Except.ok.inj h ▸ .unlock hp
      · exact Except.ok.inj h ▸ .forward calls crashes hp
      · exact Except.ok.inj h ▸ .memalign alignment size calls crashes hp
  | unlocked =>
      rw [hp] at h
      obtain ⟨v₁, hstep, rfl⟩ := exists_of_map_eq_ok h
      obtain ⟨hin, rfl⟩ := of_destroyContext hstep
      exact .leave hp hin
  | returning => exact Except.ok.inj (hp ▸ h) ▸ .finish hp

theorem patrolStep {function : PatrolFunction} {point : PatrolPoint}
    (h : advancePatrol env v function point below r = .ok v') :
    PatrolStep env v function below r point v' := by
  cases point with
  | entered =>
      obtain ⟨v₁, hstep, rfl⟩ := exists_of_map_eq_ok h
      obtain ⟨hfree, rfl⟩ := of_lock hstep
      exact .lock hfree
  | locked =>
      cases function with
      | updateAllocationStates => exact Except.ok.inj h ▸ .update rfl
      | makeLeakReport => exact Except.ok.inj h ▸ .report rfl
  | updated => exact Except.ok.inj h ▸ .unlock
  | returning => exact Except.ok.inj h ▸ .finish

theorem threadStep {a : Action} (h : Reentrancy.next env v a = .ok v') (hown : ¬ a.ByOthers) :
    ThreadStep env v a v' := by
  unfold Reentrancy.next at h
  cases a with
  | call asked site => exact Except.ok.inj h ▸ .call asked site
  | spawn =>
      rw [← Except.ok.inj h]
      split_ifs with hempty
      · exact .spawn hempty
      · exact .idle _ fun hnot => hnot.2
  | callPatrol function =>
      dsimp only at h
      split at h
      · rename_i below hs
        rw [← Except.ok.inj h, hs]
        exact .callPatrol function below hs
      · exact Except.ok.inj h ▸ .idle _ fun hnot => hnot.2
  | advance r =>
      dsimp only at h
      split at h
      · rename_i hs
        exact Except.ok.inj h ▸ .idle _ fun hnot => by simp [hs, InCall] at hnot
      · rename_i below hs
        exact Except.ok.inj h ▸ .idle _ fun hnot => by simp [hs, InCall] at hnot
      · exact .wrapped r _ _ _ (by assumption) (wrappedStep h)
      · exact .patrol r _ _ _ _ (by assumption) (patrolStep h)
      · rename_i below hs
        obtain ⟨v₁, hstep, rfl⟩ := exists_of_map_eq_ok h
        obtain ⟨hout, rfl⟩ := of_constructContext hstep
        exact .enterLoop r below hs hout
  | others table => exact absurd trivial hown

/-- A thread gets the lock where it comes to it only. -/
theorem ThreadStep.takes {a : Action} (h : ThreadStep env v a v') (hafter : v'.holdsMutex = true) :
    v.holdsMutex = true ∨ Advances a ∧ takesLock v.stack = true := by
  cases h with
  | wrapped r f below v' hs h =>
      cases h with
      | lock c hp => exact .inr ⟨trivial, by simp [takesLock, hs, hp]⟩
      | unlock => cases hafter
      | _ => exact .inl hafter
  | patrol r function point below v' hs h =>
      cases h with
      | lock => exact .inr ⟨trivial, by simp [takesLock, hs]⟩
      | unlock => cases hafter
      | _ => exact .inl hafter
  | _ => exact .inl hafter

/-- Each thread is as it would be if the others were not there. -/
def Consistent (s : Threads T) : Prop := ∀ t, Inv (s.thread t)

variable {s s' : Threads T} {t u : T} {a : Action} {e : T × Action}

theorem Consistent.holds_iff (h : s.Consistent) (t : T) :
    (s.stack t).any Frame.holds = true ↔ s.holder = some t := by
  have hmutex : decide (s.holder = some t) = (s.stack t).any Frame.holds := (h t).mutex
  rw [← hmutex, decide_eq_true_iff]

theorem consistent_initial (h : s.Initial) : s.Consistent := by
  intro t
  obtain ⟨hstack, hout⟩ := h.2 t
  have hinv := inv_init s.table
  rw [thread, h.1, hstack, hout]
  exact hinv

theorem step_iff : s.Step env e s' ↔
    s.Allowed e ∧ ∃ v, Reentrancy.next env (s.thread e.1) e.2 = .ok v ∧ s' = s.put e.1 v := by
  refine and_congr_right fun _ => ?_
  unfold Threads.next
  cases Reentrancy.next env (s.thread e.1) e.2 with
  | error fault => exact ⟨nofun, fun ⟨_, h, _⟩ => nomatch h⟩
  | ok v =>
      constructor
      · exact fun h => ⟨v, rfl, (Option.some.inj h).symm⟩
      · rintro ⟨v', hv, rfl⟩
        rw [← Except.ok.inj hv]
        rfl

/-- A thread that takes a step is what it became, with the lock where it has it. -/
theorem thread_put_self (s : Threads T) (t : T) (v : Thread) : (s.put t v).thread t = v := by
  have hholder : decide ((s.put t v).holder = some t) = v.holdsMutex := by
    cases hv : v.holdsMutex with
    | true => simp [put, hv]
    | false => by_cases h : s.holder = some t <;> simp [put, hv, h]
  rw [thread, hholder]
  simp [put]

/-- The others keep their calls, their flags, and the lock. -/
theorem thread_put_of_ne {v : Thread} (hne : u ≠ t)
    (htakes : v.holdsMutex = true → s.holder ≠ some u) :
    (s.put t v).thread u = { s.thread u with table := v.table } := by
  have hholder : (s.put t v).holder = some u ↔ s.holder = some u := by
    cases hv : v.holdsMutex with
    | true => simp [put, hv, hne.symm, htakes hv]
    | false =>
        by_cases h : s.holder = some t
        · simp [put, hv, h, hne.symm]
        · simp [put, hv, h]
  have hheld : decide ((s.put t v).holder = some u) = decide (s.holder = some u) :=
    decide_eq_decide.mpr hholder
  rw [thread, hheld]
  simp [thread, put, hne]

/-- A thread that has the lock after a step was not kept waiting by another one. -/
theorem not_holder (hallowed : s.Allowed (t, a)) {v : Thread}
    (hstep : ThreadStep env (s.thread t) a v) (hne : u ≠ t) (hafter : v.holdsMutex = true) :
    s.holder ≠ some u := by
  intro hu
  cases hstep.takes hafter with
  | inl hheld =>
      have ht : s.holder = some t := of_decide_eq_true hheld
      exact hne (Option.some.inj (hu.symm.trans ht))
  | inr htakes =>
      refine hallowed.2 htakes.1 ⟨htakes.2, by simp [hu], fun ht => ?_⟩
      exact hne (Option.some.inj (hu.symm.trans ht))

/-- The others do not see what a thread does, as long as it takes the lock from none. -/
theorem Consistent.put (h : s.Consistent) {v : Thread} (hv : Inv v)
    (htakes : ∀ u, u ≠ t → v.holdsMutex = true → s.holder ≠ some u) :
    (s.put t v).Consistent := by
  intro u
  by_cases hut : u = t
  · rw [hut, thread_put_self]
    exact hv
  · rw [thread_put_of_ne hut (htakes u hut)]
    exact ⟨(h u).flag, (h u).mutex, (h u).sound⟩

theorem Consistent.step (h : s.Consistent) (hstep : s.Step env e s') : s'.Consistent := by
  obtain ⟨t, a⟩ := e
  obtain ⟨hallowed, v, hv, rfl⟩ := step_iff.mp hstep
  have hown := threadStep hv hallowed.1
  refine h.put ?_ fun u hut hafter => not_holder hallowed hown hut hafter
  have hgood : Good (Reentrancy.next env (s.thread t) a) := (h t).next a
  cases hgood with
  | inl hcrash => cases hcrash.symm.trans hv
  | inr hok =>
      obtain ⟨v₁, hv₁, hinv⟩ := hok
      exact Except.ok.inj (hv₁.symm.trans hv) ▸ hinv

/-- The thread that has the lock is in a call and does not wait. -/
theorem Consistent.holder (h : s.Consistent) (hholder : s.holder = some t) :
    InCall (s.stack t) ∧ ¬ s.Waits t := by
  refine ⟨?_, fun hwaits => hwaits.2.2 hholder⟩
  have hholds := (h.holds_iff t).mpr hholder
  cases hstack : s.stack t with
  | nil => simp [hstack] at hholds
  | cons f below =>
      cases f with
      | wrapped f => exact trivial
      | patrol function point => exact trivial
      | monitorMain inBody =>
          have hthread : (s.thread t).stack = .monitorMain inBody :: below := hstack
          have hbelow : below = [] := ((h t).monitorMain hthread).1
          simp [hstack, hbelow, Frame.holds] at hholds

variable (x : Execution Initial (Step (T := T) env))

theorem consistent_at : ∀ n ≤ x.length, (x.state n).Consistent :=
  x.invariant (I := Consistent) (C := fun _ _ => True) (fun _ => consistent_initial)
    (fun _ _ _ h _ => h.step) fun _ _ => trivial

/-- The lock is never with two threads. While any thread is in a call, one that is
can go on. Nothing that a thread does fails an assertion or takes the lock a second
time; the copy to `NULL` is the one thing that ends the process. -/
theorem some_thread_goes_on : ∀ n ≤ x.length,
    (∀ t u, ((x.state n).stack t).any Frame.holds = true →
      ((x.state n).stack u).any Frame.holds = true → t = u) ∧
    ((∃ t, InCall ((x.state n).stack t)) →
      ∃ t, InCall ((x.state n).stack t) ∧ ¬ (x.state n).Waits t) ∧
    ∀ e, (x.state n).next env e = .error .crashed ∨ ∃ s, (x.state n).next env e = .ok s := by
  intro n hn
  have h := consistent_at x n hn
  refine ⟨fun t u ht hu => ?_, fun ⟨t, ht⟩ => ?_, fun e => ?_⟩
  · have hsame := ((h.holds_iff t).mp ht).symm.trans ((h.holds_iff u).mp hu)
    exact Option.some.inj hsame
  · cases hholder : (x.state n).holder with
    | none => exact ⟨t, ht, fun hwaits => hwaits.2.1 hholder⟩
    | some u => exact ⟨u, h.holder hholder⟩
  · have hgood : Good (Reentrancy.next env ((x.state n).thread e.1) e.2) := (h e.1).next e.2
    unfold Threads.next
    cases hgood with
    | inl hcrash => exact .inl (by rw [hcrash]; rfl)
    | inr hok =>
        obtain ⟨v, hv, -⟩ := hok
        exact .inr ⟨_, by rw [hv]; rfl⟩

def idleThreads : Threads Bool := ⟨.empty, none, fun _ => [], fun _ => false⟩

theorem initial_idleThreads : idleThreads.Initial := ⟨rfl, fun _ => ⟨rfl, rfl⟩⟩

/-- One thread gets the lock while the other one is on its way to it. -/
def twoThreadEvents : List (Bool × Action) :=
  [(false, .call (.malloc 8) ⟨0, 0⟩), (true, .call (.malloc 16) ⟨0, 0⟩), (false, .advance {}),
    (true, .advance {}), (false, .advance {}), (true, .advance {}), (false, .advance {}),
    (false, .advance { answer := 4096 }), (false, .advance {}), (false, .advance {}),
    (true, .advance {}), (false, .advance {}), (false, .advance {})]

def twoThreadRun : Execution (Initial (T := Bool)) (Step .default) :=
  Execution.ofEvents twoThreadEvents (false, .spawn) initial_idleThreads (by decide +kernel)

example : (twoThreadRun.state 7).Waits true ∧ (twoThreadRun.state 11).holder = some true := by
  decide +kernel

theorem some_thread_goes_on_twoThreadRun :
    (∀ t u, ((twoThreadRun.state 7).stack t).any Frame.holds = true →
      ((twoThreadRun.state 7).stack u).any Frame.holds = true → t = u) ∧
    ((∃ t, InCall ((twoThreadRun.state 7).stack t)) →
      ∃ t, InCall ((twoThreadRun.state 7).stack t) ∧ ¬ (twoThreadRun.state 7).Waits t) ∧
    ∀ e, (twoThreadRun.state 7).next .default e = .error .crashed ∨
      ∃ s, (twoThreadRun.state 7).next .default e = .ok s :=
  some_thread_goes_on twoThreadRun 7 (by decide)

end Threads
end AllocCounter
