import AllocCounter.TableAccesses
import AllocCounter.ThreadInterleavings

/-!
# Locked sections, access by access

The threads again, with what they do to the table between taking the mutex and giving
it back as single accesses. Between two accesses of a section every other thread may
take its steps, and the thread itself may call wrapped functions, as the containers
of the table do. While no section is open the table is what the completed sections
give when each of them is done at once, one after another.
-/
namespace AllocCounter

open Reentrancy Threads

/-- What a thread does in a section, with what it has read before. -/
inductive Operation where
  | call (c : Caller) (r : Reads) (site : CallSite) (called : InstrumentedCall)
  | update (time : UInt64) (lightOrder watchedOrder : List Address)
  | report (order : ReportOrder)
deriving DecidableEq

/-- What a section hands to the code after it. -/
inductive Result where
  | calls (calls : List RealCall) (crashes : Bool)
  | leaks (stats : AllocationStats) (foundLeaks : List FoundLeak)
  | report (counts : ReportCounts) (ratioSuspicious : Option ℚ)
deriving DecidableEq

/-- The calls that a wrapped function still has to make. -/
def Result.called : Result → List RealCall × Bool
  | .calls real crashes => (real, crashes)
  | .leaks _ _ | .report _ _ => ([], false)

namespace Operation

variable (env : Environment)

/-- The operation, done at once. The process ends after a crash, but the call has been
counted then. -/
def apply (table : AllocationTable) : Operation → AllocationTable × Result
  | .call c r site called =>
      let (table', calls, crashes) := underLock env table c r site called
      (if crashes then TableAccesses.countRealloc table c.clock else table', .calls calls crashes)
  | .update time lightOrder watchedOrder =>
      let (table, stats, foundLeaks) :=
        table.patrolThreadUpdateAllocationStates env time lightOrder watchedOrder
      (table, .leaks stats foundLeaks)
  | .report order =>
      (table, .report (table.reportCounts env order) (ratio
        table.stats.allocationWithSuspiciousFingerprintCount.toNat
        table.stats.allocationCount.toNat))

/-- The operation, access by access. -/
def program : Operation → Program AllocationTable Result
  | .call c r site (.allocate size alignment _ zeroFill) => do
      let q := InstrumentedCall.request site size alignment zeroFill
      let (_, effects) ← TableAccesses.instrumentedAllocate env c q.size.toUInt32
        q.alignment.toUInt32 q.fingerprint (fun _ => r.answer) q.zeroFill
      pure (.calls (realCalls effects) false)
  | .call c r _ (.reallocate oldMemory newRequestedSize _) => do
      let answer ← TableAccesses.instrumentedReallocate env c oldMemory newRequestedSize
        fun _ => r.answer
      match answer with
      | some (_, effects) => pure (.calls (realCalls effects) false)
      | none => pure (.calls [.memalign env.pageSize.toUInt64
          (env.roundUpToPageMultiple newRequestedSize.toUInt32).toUInt64] true)
  | .call c r _ (.free memory _) => do
      let effects ← TableAccesses.instrumentedFree c memory fun _ => r.answer
      pure (.calls (realCalls effects) false)
  | .update time lightOrder watchedOrder => do
      let (stats, foundLeaks) ←
        TableAccesses.patrolThreadUpdateAllocationStates env time lightOrder watchedOrder
      pure (.leaks stats foundLeaks)
  | .report order => do
      let (counts, ratioSuspicious) ← TableAccesses.patrolThreadMakeLeakReport env order
      pure (.report counts ratioSuspicious)

variable {env}

theorem run_program (o : Operation) (t : AllocationTable) :
    (o.program env).run t = o.apply env t := by
  cases o with
  | call c r site called =>
      cases called with
      | allocate size alignment callback zeroFill =>
          simp [program, apply, underLock, TableAccesses.run_instrumentedAllocate]
      | reallocate oldMemory newRequestedSize callback =>
          rw [program, Program.run_bind, TableAccesses.run_instrumentedReallocate, apply, underLock]
          cases t.instrumentedReallocate env c oldMemory newRequestedSize fun _ => r.answer <;> rfl
      | free memory callback =>
          simp [program, apply, underLock, TableAccesses.run_instrumentedFree]
  | update time lightOrder watchedOrder =>
      simp [program, apply, TableAccesses.run_patrolThreadUpdateAllocationStates]
  | report order => simp [program, apply, TableAccesses.run_patrolThreadMakeLeakReport]

end Operation

/-- What is left of a section, with the operation that it is. -/
abbrev Remaining := Operation × Program AllocationTable Result

/-- The threads, with what is left of the section that each of them is in. -/
structure LockedSections (T : Type*) extends Threads T where
  remaining : T → Option Remaining

namespace LockedSections

/-- An action of a thread. The order is that in which a leak report visits the
entries. -/
structure Event (T : Type*) where
  thread : T
  action : Action
  order : ReportOrder := []
deriving DecidableEq

/-- The frame has the lock, and its section is not completed. -/
def Locked : Frame → Prop
  | .wrapped f => ∃ c, f.point = .locked c
  | .patrol _ point => point = .locked
  | .monitorMain _ => False

section

variable (env : Environment)

/-- The operation that a thread that goes on is in. -/
def operation (stack : List Frame) (a : Action) (order : ReportOrder) : Option Operation :=
  match stack, a with
  | .wrapped f :: _, .advance r =>
      match f.point with
      | .locked c => some (.call c r f.site (f.asked.wrapped env))
      | _ => none
  | .patrol .updateAllocationStates .locked :: _, .advance r =>
      some (.update r.time r.lightOrder r.watchedOrder)
  | .patrol .makeLeakReport .locked :: _, .advance _ => some (.report order)
  | _, _ => none

/-- The frame on top goes on behind its section. -/
def completed (stack : List Frame) (result : Result) : List Frame :=
  match stack with
  | .wrapped f :: below =>
      .wrapped { f with point := .acting result.called.1 result.called.2 } :: below
  | .patrol function _ :: below => .patrol function .updated :: below
  | stack => stack

/-- One step of a thread: outside its section as before, and in it a section begins,
or takes its next access, or is completed. -/
def advance (v : Thread) (remaining : Option Remaining) (a : Action) (order : ReportOrder) :
    Except Fault (Thread × Option Remaining) :=
  match operation env v.stack a order, remaining with
  | none, remaining => (Reentrancy.next env v a).map fun v => (v, remaining)
  | some o, none => .ok (v, some (o, o.program env))
  | some _, some (_, .done result) => .ok ({ v with stack := completed v.stack result }, none)
  | some _, some (o, program) =>
      .ok ({ v with table := (program.step v.table).1 }, some (o, (program.step v.table).2))

/-- The operation that the step completes, with its result. -/
def completion (v : Thread) (remaining : Option Remaining) (a : Action) (order : ReportOrder) :
    Option (Operation × Result) :=
  match operation env v.stack a order, remaining with
  | some _, some (o, .done result) => some (o, result)
  | _, _ => none

variable {T : Type*} [DecidableEq T]

def next (s : LockedSections T) (e : Event T) : Except Fault (LockedSections T) :=
  (advance env (s.thread e.thread) (s.remaining e.thread) e.action e.order).map
    fun (v, remaining) =>
      ⟨s.put e.thread v, Function.update s.remaining e.thread remaining⟩

def Allowed (s : LockedSections T) (e : Event T) : Prop :=
  s.toThreads.Allowed (e.thread, e.action)

instance (s : LockedSections T) (e : Event T) : Decidable (s.Allowed e) :=
  inferInstanceAs (Decidable (s.toThreads.Allowed _))

def Step (s : LockedSections T) (e : Event T) (s' : LockedSections T) : Prop :=
  s.Allowed e ∧ (s.next env e).toOption = some s'

def Initial (s : LockedSections T) : Prop :=
  s.toThreads.Initial ∧ ∀ t, s.remaining t = none

end

/-- The steps of a thread, with what they complete. -/
inductive SectionStep (env : Environment) (v : Thread) (p : Option Remaining) (a : Action)
    (order : ReportOrder) : Thread → Option Remaining → Option (Operation × Result) → Prop
  | outside (v' : Thread) (hout : operation env v.stack a order = none)
      (hnext : Reentrancy.next env v a = .ok v') (h : ThreadStep env v a v') :
      SectionStep env v p a order v' p none
  | begins (o : Operation) (hin : operation env v.stack a order = some o) (hp : p = none) :
      SectionStep env v p a order v (some (o, o.program env)) none
  | accesses (o o' : Operation) (program : Program AllocationTable Result)
      (hin : operation env v.stack a order = some o') (hp : p = some (o, program)) :
      SectionStep env v p a order { v with table := (program.step v.table).1 }
        (some (o, (program.step v.table).2)) none
  | completes (o o' : Operation) (result : Result)
      (hin : operation env v.stack a order = some o') (hp : p = some (o, .done result)) :
      SectionStep env v p a order { v with stack := completed v.stack result } none
        (some (o, result))

variable {env : Environment} {v v' : Thread} {p p' : Option Remaining} {a : Action}
  {order : ReportOrder} {o : Operation} {done : Option (Operation × Result)} {f : Frame}
  {stack below : List Frame}

theorem sectionStep (h : advance env v p a order = .ok (v', p')) (hown : ¬ a.ByOthers) :
    SectionStep env v p a order v' p' (completion env v p a order) := by
  unfold advance at h
  unfold completion
  cases hop : operation env v.stack a order with
  | none =>
      rw [hop] at h
      dsimp only at h ⊢
      cases hnext : Reentrancy.next env v a with
      | error fault =>
          rw [hnext] at h
          cases h
      | ok v₁ =>
          rw [hnext] at h
          obtain ⟨rfl, rfl⟩ := Prod.mk.inj (Except.ok.inj h)
          exact .outside v₁ hop hnext (threadStep hnext hown)
  | some o =>
      rw [hop] at h
      cases p with
      | none =>
          obtain ⟨rfl, rfl⟩ := Prod.mk.inj (Except.ok.inj h)
          exact .begins o hop rfl
      | some remaining =>
          obtain ⟨o', program⟩ := remaining
          cases program with
          | done result =>
              obtain ⟨rfl, rfl⟩ := Prod.mk.inj (Except.ok.inj h)
              exact .completes o' o result hop rfl
          | access write rest =>
              obtain ⟨rfl, rfl⟩ := Prod.mk.inj (Except.ok.inj h)
              exact .accesses o' o _ hop rfl

/-- The frame does the operation in its section. -/
def Does (env : Environment) : Frame → Operation → Prop
  | .wrapped f, .call c _ site called =>
      f.point = .locked c ∧ site = f.site ∧ called = f.asked.wrapped env
  | .patrol function point, .update _ _ _ =>
      function = .updateAllocationStates ∧ point = .locked
  | .patrol function point, .report _ => function = .makeLeakReport ∧ point = .locked
  | _, _ => False

theorem Does.locked (h : Does env f o) : Locked f := by
  cases f with
  | wrapped f =>
      cases o with
      | call c r site called => exact ⟨c, h.1⟩
      | update | report => exact h.elim
  | patrol function point =>
      cases o with
      | call => exact h.elim
      | update | report => exact h.2
  | monitorMain => cases o <;> exact h.elim

theorem Locked.holds (h : Locked f) : f.holds = true := by
  cases f with
  | wrapped f =>
      obtain ⟨c, hp⟩ := h
      simp [Frame.holds, hp]
  | patrol function point =>
      cases h
      rfl
  | monitorMain => exact h.elim

/-- A thread is in an operation where its frame on top has the lock and it goes on. -/
theorem operation_spec (h : operation env stack a order = some o) :
    ∃ f below, stack = f :: below ∧ Does env f o ∧ Advances a := by
  unfold operation at h
  split at h
  · rename_i f below r
    split at h
    · rename_i c hp
      obtain rfl := Option.some.inj h
      exact ⟨_, below, rfl, ⟨hp, rfl, rfl⟩, trivial⟩
    · cases h
  · obtain rfl := Option.some.inj h
    exact ⟨_, _, rfl, ⟨rfl, rfl⟩, trivial⟩
  · obtain rfl := Option.some.inj h
    exact ⟨_, _, rfl, ⟨rfl, rfl⟩, trivial⟩
  · cases h

theorem operation_ne_none (h : Locked f) (r : Reads) :
    operation env (f :: below) (.advance r) order ≠ none := by
  cases f with
  | wrapped f =>
      obtain ⟨c, hp⟩ := h
      simp [operation, hp]
  | patrol function point =>
      cases h
      cases function <;> simp [operation]
  | monitorMain => exact h.elim

/-- Below a frame that has the lock there is none. -/
theorem not_holds_below (h : Sound (f :: below)) (hlocked : Locked f) :
    below.any Frame.holds = false := by
  cases f with
  | wrapped f =>
      obtain ⟨c, hp⟩ := hlocked
      have hfits := h.1.2
      rw [hp] at hfits
      exact h.2.holds_eq_false hfits
  | patrol function point => exact h.1.2
  | monitorMain => exact hlocked.elim

/-- Only the frame on top may be in a section that goes on. -/
theorem eq_of_locked {g : Frame} (h : Sound (f :: below)) (hlocked : Locked f)
    (hg : g ∈ f :: below) (hg' : Locked g) : g = f := by
  cases List.mem_cons.mp hg with
  | inl heq => exact heq
  | inr hmem =>
      have hnone := List.any_eq_false.mp (not_holds_below h hlocked) g hmem
      exact absurd hg'.holds hnone

theorem inv_completed (h : Inv v) (hs : v.stack = f :: below) (hlocked : Locked f)
    (result : Result) : Inv { v with stack := completed v.stack result } := by
  obtain ⟨hflag, hmutex, hsound⟩ := h
  rw [hs] at hflag hmutex hsound ⊢
  cases f with
  | wrapped f =>
      obtain ⟨c, hp⟩ := hlocked
      obtain ⟨⟨hbefore, hout⟩, hbelow⟩ := hsound
      rw [hp] at hout
      refine ⟨?_, ?_, ⟨hbefore, hout⟩, hbelow⟩
      · simpa [completed, insideLibrary, Frame.inContext, hp] using hflag
      · simpa [completed, Frame.holds, hp] using hmutex
  | patrol function point =>
      cases hlocked
      exact ⟨hflag, hmutex, hsound⟩
  | monitorMain => exact hlocked.elim

theorem SectionStep.inv (h : SectionStep env v p a order v' p' done) (hinv : Inv v) : Inv v' := by
  cases h with
  | outside v' hout hnext =>
      have hgood : Good (Reentrancy.next env v a) := hinv.next a
      cases hgood with
      | inl hcrash => cases hcrash.symm.trans hnext
      | inr hok =>
          obtain ⟨v₁, hv₁, h₁⟩ := hok
          exact Except.ok.inj (hv₁.symm.trans hnext) ▸ h₁
  | begins => exact hinv
  | accesses => exact ⟨hinv.flag, hinv.mutex, hinv.sound⟩
  | completes o o' result hin =>
      obtain ⟨f, below, hs, hdoes, -⟩ := operation_spec hin
      exact inv_completed hinv hs hdoes.locked result

/-- Only in its section does a thread change the table. -/
theorem table_of_outside (h : ThreadStep env v a v') (hout : operation env v.stack a order = none) :
    v'.table = v.table := by
  cases h with
  | wrapped r f below v' hs h =>
      cases h with
      | act c hp => simp [operation, hs, hp] at hout
      | _ => rfl
  | patrol r function point below v' hs h =>
      cases h with
      | update h => simp [operation, hs, h] at hout
      | _ => rfl
  | _ => rfl

/-- Other than by advancing, a thread can only put a frame on top. -/
theorem suffix_of_not_advances (h : ThreadStep env v a v') (hnot : ¬ Advances a) :
    ∃ new, v'.stack = new ++ v.stack := by
  cases h with
  | call asked site => exact ⟨[_], rfl⟩
  | spawn hempty => exact ⟨[_], by simp [hempty]; rfl⟩
  | callPatrol function below hs => exact ⟨[_], by simp [hs]; rfl⟩
  | enterLoop | wrapped | patrol => exact absurd trivial hnot
  | idle => exact ⟨[], rfl⟩

/-- A thread keeps what is below its frame on top. -/
theorem suffix_of_step {top : Frame} {rest : List Frame} (h : ThreadStep env v a v')
    (hs : v.stack = top :: rest) : ∃ new, v'.stack = new ++ rest := by
  cases h with
  | call asked site => exact ⟨[_, top], by rw [Thread.push, hs]; rfl⟩
  | spawn h => simp [h] at hs
  | callPatrol function below h =>
      rw [h] at hs
      exact ⟨[.patrol function .entered, .monitorMain true], by simp [(List.cons.inj hs).2]⟩
  | enterLoop r below h =>
      rw [h] at hs
      exact ⟨[.monitorMain true], by simp [(List.cons.inj hs).2]⟩
  | wrapped r f below v' h hstep =>
      rw [h] at hs
      rw [← (List.cons.inj hs).2]
      cases hstep with
      | finish => exact ⟨[], rfl⟩
      | memalign => exact ⟨[_, _], rfl⟩
      | _ => exact ⟨[_], rfl⟩
  | patrol r function point below v' h hstep =>
      rw [h] at hs
      rw [← (List.cons.inj hs).2]
      cases hstep with
      | finish => exact ⟨[], rfl⟩
      | _ => exact ⟨[_], rfl⟩
  | idle a h => exact ⟨[top], hs⟩

/-- Outside a section the frames that are in one stay. -/
theorem mem_of_outside (h : ThreadStep env v a v') (hout : operation env v.stack a order = none)
    (hf : f ∈ v.stack) (hlocked : Locked f) : f ∈ v'.stack := by
  by_cases hadvances : Advances a
  · cases hs : v.stack with
    | nil => simp [hs] at hf
    | cons top rest =>
        obtain ⟨new, hnew⟩ := suffix_of_step h hs
        rw [hs] at hf hout
        cases List.mem_cons.mp hf with
        | inr hrest =>
            rw [hnew]
            exact List.mem_append_right _ hrest
        | inl htop =>
            cases a with
            | advance r => exact absurd hout (operation_ne_none (htop ▸ hlocked) r)
            | _ => exact hadvances.elim
  · obtain ⟨new, hnew⟩ := suffix_of_not_advances h hadvances
    rw [hnew]
    exact List.mem_append_right _ hf

/-- Each thread is as if the others were not there, and one that is in a section has
a frame that does its operation. -/
structure Consistent (env : Environment) {T : Type*} [DecidableEq T] (s : LockedSections T) :
    Prop where
  threads : s.toThreads.Consistent
  does : ∀ t o program, s.remaining t = some (o, program) → ∃ f ∈ s.stack t, Does env f o

variable {T : Type*} [DecidableEq T] {s s' : LockedSections T} {e : Event T} {t u : T}

/-- A step is one of its thread, which takes the lock from none. -/
theorem step_spec (h : s.Step env e s') : ∃ v p,
    SectionStep env (s.thread e.thread) (s.remaining e.thread) e.action e.order v p
      (completion env (s.thread e.thread) (s.remaining e.thread) e.action e.order) ∧
    s' = ⟨s.put e.thread v, Function.update s.remaining e.thread p⟩ ∧
    ∀ u, u ≠ e.thread → v.holdsMutex = true → s.holder ≠ some u := by
  obtain ⟨hallowed, hnext⟩ := h
  unfold next at hnext
  cases hadvance : advance env (s.thread e.thread) (s.remaining e.thread) e.action e.order with
  | error fault =>
      rw [hadvance] at hnext
      cases hnext
  | ok result =>
      obtain ⟨v, p⟩ := result
      rw [hadvance] at hnext
      have hstep := sectionStep hadvance hallowed.1
      refine ⟨v, p, hstep, (Option.some.inj hnext).symm, fun u hne hafter => ?_⟩
      have hsame : (s.thread e.thread).holdsMutex = true → s.holder ≠ some u := by
        intro hheld hu
        have ht : s.holder = some e.thread := of_decide_eq_true hheld
        exact hne (Option.some.inj (hu.symm.trans ht))
      generalize completion env (s.thread e.thread) _ _ _ = done at hstep
      cases hstep with
      | outside v hout hnext h => exact not_holder hallowed h hne hafter
      | begins | accesses | completes => exact hsame hafter

theorem Consistent.holder_of_locked (h : s.Consistent env) (hf : f ∈ s.stack t)
    (hlocked : Locked f) : s.holder = some t :=
  (h.threads.holds_iff t).mp (List.any_eq_true.mpr ⟨f, hf, hlocked.holds⟩)

theorem Consistent.holder_of_remaining (h : s.Consistent env) (hr : s.remaining t ≠ none) :
    s.holder = some t := by
  obtain ⟨⟨o, program⟩, hr⟩ := Option.ne_none_iff_exists'.mp hr
  obtain ⟨f, hf, hdoes⟩ := h.does t o program hr
  exact h.holder_of_locked hf hdoes.locked

theorem stack_put_self (v : Thread) : (s.put t v).stack t = v.stack :=
  Function.update_self _ _ _

theorem stack_put_of_ne (v : Thread) (hne : u ≠ t) : (s.put t v).stack u = s.stack u :=
  Function.update_of_ne hne _ _

theorem Consistent.step (h : s.Consistent env) (hstep : s.Step env e s') : s'.Consistent env := by
  obtain ⟨v, p, hown, rfl, htakes⟩ := step_spec hstep
  refine ⟨h.threads.put (hown.inv (h.threads e.thread)) htakes, fun u o program hu => ?_⟩
  generalize completion env (s.thread e.thread) _ _ _ = done at hown
  dsimp only at hu ⊢
  by_cases hut : u = e.thread
  · subst hut
    rw [Function.update_self] at hu
    rw [stack_put_self]
    cases hown with
    | outside v hout hnext h' =>
        obtain ⟨f, hf, hdoes⟩ := h.does _ o program hu
        exact ⟨f, mem_of_outside h' hout hf hdoes.locked, hdoes⟩
    | begins o' hin =>
        obtain ⟨rfl, -⟩ := Prod.mk.inj (Option.some.inj hu)
        obtain ⟨f, below, hs, hdoes, -⟩ := operation_spec hin
        exact ⟨f, hs ▸ List.mem_cons_self, hdoes⟩
    | accesses o' o'' program' hin hp =>
        obtain ⟨rfl, -⟩ := Prod.mk.inj (Option.some.inj hu)
        exact h.does _ o' program' hp
    | completes => cases hu
  · rw [Function.update_of_ne hut] at hu
    rw [stack_put_of_ne v hut]
    exact h.does u o program hu

theorem consistent_initial (h : s.Initial) : s.Consistent env :=
  ⟨Threads.consistent_initial h.1, fun t _ _ hr => nomatch (h.2 t).symm.trans hr⟩

section Run

variable (x : Execution (Initial (T := T)) (Step env))

theorem consistent_at : ∀ n ≤ x.length, (x.state n).Consistent env :=
  x.invariant (I := Consistent env) (C := fun _ _ => True) (fun _ => consistent_initial)
    (fun _ _ _ h _ => h.step) fun _ _ => trivial

/-- The operation that an event completes, with its result. -/
def completedAt (i : ℕ) : Option (Operation × Result) :=
  completion env ((x.state i).thread (x.event i).thread) ((x.state i).remaining (x.event i).thread)
    (x.event i).action (x.event i).order

/-- The table that the operations completed before `n` give, one after another. -/
def sequential (n : ℕ) : AllocationTable :=
  ((List.range n).filterMap (completedAt x)).foldl (fun table c => (c.1.apply env table).1)
    (x.state 0).table

theorem sequential_succ (n : ℕ) : sequential x (n + 1) =
    (completedAt x n).elim (sequential x n) fun c => (c.1.apply env (sequential x n)).1 := by
  rw [sequential, sequential, List.range_succ, List.filterMap_append, List.foldl_append]
  cases h : completedAt x n <;> simp [h]

/-- Without an open section the table is the sequential one. What is left of an open
one will make it that of the whole operation. -/
structure SectionsAt (n : ℕ) : Prop where
  idle : (∀ t, (x.state n).remaining t = none) → (x.state n).table = sequential x n
  busy : ∀ t o program, (x.state n).remaining t = some (o, program) →
    program.run (x.state n).table = o.apply env (sequential x n)

theorem sectionsAt : ∀ n ≤ x.length, SectionsAt x n := by
  refine x.holds_at _ ⟨fun _ => rfl, fun t o program hr => ?_⟩ fun n hn ih => ?_
  · exact nomatch (x.starts.2 t).symm.trans hr
  have hconsistent := consistent_at x n hn.le
  obtain ⟨v, p, hown, hsucc, -⟩ := step_spec (x.steps n hn)
  have hseq := sequential_succ x n
  rw [completedAt] at hseq
  generalize completion env ((x.state n).thread (x.event n).thread) _ _ _ = done at hown hseq
  -- while a thread is in its section no other one is
  have halone : ∀ o, operation env ((x.state n).stack (x.event n).thread) (x.event n).action
      (x.event n).order = some o → ∀ u, u ≠ (x.event n).thread →
        (x.state n).remaining u = none := by
    intro o hin u hne
    by_contra hu
    obtain ⟨f, below, hs, hdoes, -⟩ := operation_spec hin
    have hholder := hconsistent.holder_of_locked (hs ▸ List.mem_cons_self) hdoes.locked
    exact hne (Option.some.inj ((hconsistent.holder_of_remaining hu).symm.trans hholder))
  have hafter : (x.state (n + 1)).remaining =
      Function.update (x.state n).remaining (x.event n).thread p := by rw [hsucc]
  have htable : (x.state (n + 1)).table = v.table := by rw [hsucc]; rfl
  have hopen : ∀ o program, p = some (o, program) →
      (∀ u, u ≠ (x.event n).thread → (x.state n).remaining u = none) →
      program.run v.table = o.apply env (sequential x (n + 1)) → SectionsAt x (n + 1) := by
    intro o program hp hnone hrun
    constructor
    · intro hnot
      have hself := hnot (x.event n).thread
      rw [hafter, Function.update_self, hp] at hself
      cases hself
    · intro u o' program' hr
      rw [hafter] at hr
      by_cases hu : u = (x.event n).thread
      · rw [hu, Function.update_self, hp] at hr
        obtain ⟨rfl, rfl⟩ := Prod.mk.inj (Option.some.inj hr)
        rw [htable]
        exact hrun
      · rw [Function.update_of_ne hu, hnone u hu] at hr
        cases hr
  cases hown with
  | outside v hout hnext h =>
      rw [Function.update_eq_self] at hafter
      have hsame : (x.state (n + 1)).table = (x.state n).table :=
        htable.trans (table_of_outside h hout)
      constructor
      · intro hnone
        rw [hsame, hseq]
        exact ih.idle fun t => hafter ▸ hnone t
      · intro t o program hr
        rw [hsame, hseq]
        exact ih.busy t o program (hafter ▸ hr)
  | begins o hin hp =>
      refine hopen o _ rfl (halone o hin) ?_
      rw [hseq, o.run_program]
      refine congrArg (o.apply env) (ih.idle fun t => ?_)
      by_cases ht : t = (x.event n).thread
      · exact ht ▸ hp
      · exact halone o hin t ht
  | accesses o o' program hin hp =>
      refine hopen o _ rfl (halone o' hin) ?_
      rw [hseq]
      exact (program.run_step _).trans (ih.busy _ o program hp)
  | completes o o' result hin hp =>
      have hdone : ((x.state n).table, result) = o.apply env (sequential x n) := ih.busy _ o _ hp
      constructor
      · intro _
        rw [htable, hseq]
        exact congrArg Prod.fst hdone
      · intro t o'' program' hr
        rw [hafter] at hr
        by_cases ht : t = (x.event n).thread
        · rw [ht, Function.update_self] at hr
          cases hr
        · rw [Function.update_of_ne ht, halone o' hin t ht] at hr
          cases hr

end Run

end LockedSections

end AllocCounter
