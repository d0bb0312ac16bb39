import AllocCounter.MallocWrappers

/-!
# Re-entrancy

One thread that runs wrapped functions or the loop of `patrol-thread.cpp`. The
thread is a stack of frames, so its runs are the call trees: a wrapped function
may be called at any point of any other, and a frame goes one point on when those
above it have returned. The table's own `memalign` is a call of the wrapped
function. The changes that a call makes under the lock are one step, for which the
answer of the real function is given. While the thread does not hold the lock, the
other threads may change the table.
-/
namespace AllocCounter

def InstrumentedCall.callback : InstrumentedCall → AllocatorCall
  | .allocate _ _ callback _ | .reallocate _ _ callback | .free _ callback => callback

/-- There is nothing to do with `free(NULL)`. -/
def InstrumentedCall.isFreeNull : InstrumentedCall → Bool
  | .free memory _ => memory = 0
  | .allocate _ _ _ _ | .reallocate _ _ _ => false

namespace Reentrancy

/-- The points of a wrapped function, by what comes next: the tests, the callback,
the `LibraryContext`, the lock, the table, the calls of the table, the end of the
`LibraryContext`, the return. A caller is as the tests found it. -/
inductive Point where
  | entered
  | bypassing
  | unguarded (c : Caller)
  | guarded (c : Caller)
  | locked (c : Caller)
  | acting (calls : List RealCall) (crashes : Bool)
  | unlocked
  | returning
deriving DecidableEq

/-- `forwards` are the real functions that the call has called. -/
structure WrappedFrame where
  asked : AllocatorCall
  site : CallSite
  inLibraryBefore : Bool
  point : Point := .entered
  forwards : List AllocatorCall := []
deriving DecidableEq

inductive PatrolFunction where
  | updateAllocationStates | makeLeakReport
deriving DecidableEq

inductive PatrolPoint where
  | entered | locked | updated | returning
deriving DecidableEq

inductive Frame where
  | wrapped (f : WrappedFrame)
  | patrol (function : PatrolFunction) (point : PatrolPoint)
  | monitorMain (inBody : Bool)
deriving DecidableEq

structure Thread where
  stack : List Frame := []
  inLibrary : Bool := false
  holdsMutex : Bool := false
  table : AllocationTable
deriving DecidableEq

/-- The assertions of `LibraryContext`, the lock that never comes, and the copy to
`NULL`. -/
inductive Fault where
  | contextConstructed | contextDestroyed | relocked | crashed
deriving DecidableEq

/-- What a step reads. -/
structure Reads where
  watchState : WatchState := .watching
  time : UInt64 := 0
  clock : ℚ := 0
  stackTrace : StackTrace := ⟨[]⟩
  site : CallSite := ⟨0, 0⟩
  answer : Address := 0
  lightOrder : List Address := []
  watchedOrder : List Address := []
deriving DecidableEq

inductive Action where
  | call (asked : AllocatorCall) (site : CallSite)
  | spawn
  | callPatrol (function : PatrolFunction)
  | advance (reads : Reads)
  | others (table : AllocationTable)
deriving DecidableEq

namespace Thread

def constructContext (t : Thread) : Except Fault Thread :=
  if t.inLibrary then .error .contextConstructed else .ok { t with inLibrary := true }

def destroyContext (t : Thread) : Except Fault Thread :=
  if t.inLibrary then .ok { t with inLibrary := false } else .error .contextDestroyed

def lock (t : Thread) : Except Fault Thread :=
  if t.holdsMutex then .error .relocked else .ok { t with holdsMutex := true }

def unlock (t : Thread) : Thread := { t with holdsMutex := false }

def push (t : Thread) (asked : AllocatorCall) (site : CallSite) : Thread :=
  { t with stack := .wrapped { asked := asked, site := site, inLibraryBefore := t.inLibrary } ::
      t.stack }

/-- The frame on top goes on to another point. -/
def goto (t : Thread) (f : WrappedFrame) (below : List Frame) (point : Point) : Thread :=
  { t with stack := .wrapped { f with point := point } :: below }

/-- The callback calls the real function. -/
def forward (t : Thread) (f : WrappedFrame) (below : List Frame) (callback : AllocatorCall)
    (point : Point) : Thread :=
  t.goto { f with forwards := f.forwards ++ [callback] } below point

end Thread

section

variable (env : Environment)

/-- The calls of allocators among the effects of a call. -/
def realCalls (effects : List Effect) : List RealCall :=
  effects.filterMap fun
    | .real call _ => some call
    | .bzero _ _ | .memcpy _ _ _ => none

/-- What an instrumented call does under the lock: the table, the calls that it
makes, and whether it crashes after them. -/
def underLock (table : AllocationTable) (c : Caller) (r : Reads) (site : CallSite) :
    InstrumentedCall → AllocationTable × List RealCall × Bool
  | .allocate size alignment _ zeroFill =>
      let q := InstrumentedCall.request site size alignment zeroFill
      let o := table.instrumentedAllocate env c q.size.toUInt32 q.alignment.toUInt32
        q.fingerprint (fun _ => r.answer) q.zeroFill
      (o.table, realCalls o.effects, false)
  | .reallocate oldMemory newRequestedSize _ =>
      match table.instrumentedReallocate env c oldMemory newRequestedSize fun _ => r.answer with
      | some o => (o.table, realCalls o.effects, false)
      | none =>
          (table, [.memalign env.pageSize.toUInt64
            (env.roundUpToPageMultiple newRequestedSize.toUInt32).toUInt64], true)
  | .free memory _ =>
      let o := table.instrumentedFree c memory fun _ => r.answer
      (o.1, realCalls o.2, false)

/-- The next step of the wrapped function on top of the stack. -/
def advanceWrapped (t : Thread) (f : WrappedFrame) (below : List Frame) (r : Reads) :
    Except Fault Thread :=
  let called := f.asked.wrapped env
  match f.point with
  | .entered =>
      let c : Caller := ⟨r.watchState, t.inLibrary, r.time, r.clock, r.stackTrace⟩
      .ok (t.goto f below
        (if called.isFreeNull then .returning
        else if AllocationTable.Bypasses c then .bypassing
        else .unguarded c))
  | .bypassing => .ok (t.forward f below called.callback .returning)
  | .unguarded c => t.constructContext.map fun t => t.goto f below (.guarded c)
  | .guarded c => t.lock.map fun t => t.goto f below (.locked c)
  | .locked c =>
      let (table, calls, crashes) := underLock env t.table c r f.site called
      .ok ({ t with table := table }.goto f below (.acting calls crashes))
  | .acting [] crashes =>
      if crashes then .error .crashed else .ok (t.unlock.goto f below .unlocked)
  | .acting (.preferred :: calls) crashes =>
      .ok (t.forward f below called.callback (.acting calls crashes))
  | .acting (.memalign alignment size :: calls) crashes =>
      .ok ((t.goto f below (.acting calls crashes)).push (.memalign alignment size) r.site)
  | .unlocked => t.destroyContext.map fun t => t.goto f below .returning
  | .returning => .ok { t with stack := below }

/-- The next step of a patrol function. -/
def advancePatrol (t : Thread) (function : PatrolFunction) (point : PatrolPoint)
    (below : List Frame) (r : Reads) : Except Fault Thread :=
  match point with
  | .entered => t.lock.map fun t => { t with stack := .patrol function .locked :: below }
  | .locked =>
      let table := match function with
        | .updateAllocationStates => (t.table.patrolThreadUpdateAllocationStates env r.time
            r.lightOrder r.watchedOrder).1
        | .makeLeakReport => t.table
      .ok { t with stack := .patrol function .updated :: below, table := table }
  | .updated => .ok { t.unlock with stack := .patrol function .returning :: below }
  | .returning => .ok { t with stack := below }

def next (t : Thread) : Action → Except Fault Thread
  | .call asked site => .ok (t.push asked site)
  | .spawn => .ok (if t.stack = [] then { t with stack := [.monitorMain false] } else t)
  | .callPatrol function =>
      match t.stack with
      | .monitorMain true :: _ => .ok { t with stack := .patrol function .entered :: t.stack }
      | _ => .ok t
  | .advance r =>
      match t.stack with
      | [] | .monitorMain true :: _ => .ok t
      | .wrapped f :: below => advanceWrapped env t f below r
      | .patrol function point :: below => advancePatrol env t function point below r
      | .monitorMain false :: below =>
          t.constructContext.map fun t => { t with stack := .monitorMain true :: below }
  | .others table => .ok (if t.holdsMutex then t else { t with table := table })

def run (table : AllocationTable) (actions : List Action) : Except Fault Thread :=
  actions.foldlM (next env) { table := table }

end

/-- The frame has a `LibraryContext`. -/
def Frame.inContext : Frame → Bool
  | .wrapped f =>
      match f.point with
      | .guarded _ | .locked _ | .acting _ _ | .unlocked => true
      | .entered | .bypassing | .unguarded _ | .returning => false
  | .patrol _ _ => false
  | .monitorMain inBody => inBody

/-- The frame has the lock. -/
def Frame.holds : Frame → Bool
  | .wrapped f =>
      match f.point with
      | .locked _ | .acting _ _ => true
      | _ => false
  | .patrol _ point =>
      match point with
      | .locked | .updated => true
      | .entered | .returning => false
  | .monitorMain _ => false

/-- Some frame has a `LibraryContext`. -/
def insideLibrary (stack : List Frame) : Bool := stack.any Frame.inContext

def WrappedFrame.Fits (f : WrappedFrame) (below : List Frame) : Prop :=
  f.inLibraryBefore = insideLibrary below ∧
    match f.point with
    | .entered | .bypassing => f.forwards = []
    | .unguarded _ | .guarded _ | .locked _ | .acting _ _ | .unlocked => insideLibrary below = false
    | .returning => insideLibrary below = true → f.asked ≠ .free 0 → f.forwards = [f.asked]

/-- A frame has its context only over frames without one. -/
def Frame.Fits (below : List Frame) : Frame → Prop
  | .wrapped f => f.Fits below
  | .patrol _ _ => insideLibrary below = true ∧ below.any Frame.holds = false
  | .monitorMain _ => below = []

def Sound : List Frame → Prop
  | [] => True
  | f :: below => f.Fits below ∧ Sound below

/-- The flag and the lock are those of the frames. -/
structure Inv (t : Thread) : Prop where
  flag : t.inLibrary = insideLibrary t.stack
  mutex : t.holdsMutex = t.stack.any Frame.holds
  sound : Sound t.stack

theorem callback_wrapped (env : Environment) (asked : AllocatorCall) :
    (asked.wrapped env).callback = asked := by
  cases asked with
  | realloc oldMemory newSize =>
      simp only [AllocatorCall.wrapped, Wrapper.realloc]
      split_ifs with h₁ h₂ <;> simp [InstrumentedCall.callback, *]
  | reallocarray oldMemory newNumElements newElementSize =>
      simp only [AllocatorCall.wrapped, Wrapper.reallocarray]
      split_ifs with h₁ h₂ <;> simp [InstrumentedCall.callback, *]
  | _ => rfl

theorem isFreeNull_wrapped (env : Environment) (asked : AllocatorCall) :
    (asked.wrapped env).isFreeNull = true ↔ asked = .free 0 := by
  cases asked with
  | realloc oldMemory newSize =>
      simp only [AllocatorCall.wrapped, Wrapper.realloc]
      split_ifs with h₁ h₂ <;> simp [InstrumentedCall.isFreeNull, h₁]
  | reallocarray oldMemory newNumElements newElementSize =>
      simp only [AllocatorCall.wrapped, Wrapper.reallocarray]
      split_ifs with h₁ h₂ <;> simp [InstrumentedCall.isFreeNull, h₁]
  | free memory => simp [AllocatorCall.wrapped, Wrapper.free, InstrumentedCall.isFreeNull]
  | _ => simp [AllocatorCall.wrapped, InstrumentedCall.isFreeNull, Wrapper.malloc, Wrapper.calloc,
      Wrapper.posix_memalign, Wrapper.aligned_alloc, Wrapper.valloc, Wrapper.memalign,
      Wrapper.pvalloc]

variable {stack below : List Frame} {t t' : Thread} {f : WrappedFrame} {env : Environment}

theorem insideLibrary_cons (f : Frame) :
    insideLibrary (f :: below) = (f.inContext || insideLibrary below) := rfl

/-- Without a `LibraryContext` there is no lock. -/
theorem Sound.holds_eq_false (h : Sound stack) (hout : insideLibrary stack = false) :
    stack.any Frame.holds = false := by
  induction stack with
  | nil => rfl
  | cons f below ih =>
      rw [insideLibrary_cons, Bool.or_eq_false_iff] at hout
      rw [List.any_cons, ih h.2 hout.2, Bool.or_false]
      cases f with
      | wrapped f =>
          have hpoint := hout.1
          simp only [Frame.inContext, Frame.holds] at hpoint ⊢
          split <;> simp_all
      | patrol function point => exact absurd h.1.1 (by simp [hout.2])
      | monitorMain inBody => rfl

theorem inv_init (table : AllocationTable) : Inv { table := table } := ⟨rfl, rfl, trivial⟩

theorem Inv.push (h : Inv t) (asked : AllocatorCall) (site : CallSite) :
    Inv (t.push asked site) where
  flag := h.flag
  mutex := h.mutex
  sound := ⟨⟨h.flag, rfl⟩, h.sound⟩

/-- A step that ends in a good state, or in the copy to `NULL`. -/
def Good (result : Except Fault Thread) : Prop :=
  result = .error .crashed ∨ ∃ t, result = .ok t ∧ Inv t

/-- The invariant of a thread whose top frame is at this point. -/
structure InvAt (t : Thread) (f : WrappedFrame) (below : List Frame) (point : Point) : Prop where
  flag : t.inLibrary = ((Frame.wrapped { f with point := point }).inContext || insideLibrary below)
  mutex : t.holdsMutex = ((Frame.wrapped { f with point := point }).holds || below.any Frame.holds)
  fits : WrappedFrame.Fits { f with point := point } below
  sound : Sound below

theorem InvAt.goto {point : Point} (h : InvAt t f below point) : Inv (t.goto f below point) :=
  ⟨h.flag, h.mutex, h.fits, h.sound⟩

theorem Inv.at (h : Inv t) (hs : t.stack = .wrapped f :: below) : InvAt t f below f.point := by
  obtain ⟨hflag, hmutex, hsound⟩ := h
  rw [hs] at hflag hmutex hsound
  exact ⟨hflag, hmutex, hsound.1, hsound.2⟩

theorem Inv.advanceWrapped (h : Inv t) (hs : t.stack = .wrapped f :: below) (r : Reads) :
    Good (advanceWrapped env t f below r) := by
  have hat := h.at hs
  unfold Reentrancy.advanceWrapped
  cases hp : f.point with
  | entered =>
      obtain ⟨hflag, hmutex, ⟨hbefore, hnone⟩, hbelow⟩ := hp ▸ hat
      dsimp only at hnone
      refine .inr ⟨_, rfl, InvAt.goto ?_⟩
      split_ifs with hnull hbypass
      · refine ⟨hflag, hmutex, ⟨hbefore, fun _ hne => ?_⟩, hbelow⟩
        exact absurd ((isFreeNull_wrapped env _).mp hnull) hne
      · exact ⟨hflag, hmutex, ⟨hbefore, hnone⟩, hbelow⟩
      · refine ⟨hflag, hmutex, ⟨hbefore, ?_⟩, hbelow⟩
        rw [AllocationTable.Bypasses, not_or, Bool.not_eq_true] at hbypass
        exact hflag.symm.trans hbypass.1
  | bypassing =>
      obtain ⟨hflag, hmutex, ⟨hbefore, hnone⟩, hbelow⟩ := hp ▸ hat
      dsimp only at hnone
      refine .inr ⟨_, rfl, InvAt.goto ⟨hflag, hmutex, ⟨hbefore, fun _ _ => ?_⟩, hbelow⟩⟩
      simp [hnone, callback_wrapped]
  | unguarded c =>
      obtain ⟨hflag, hmutex, ⟨hbefore, hout⟩, hbelow⟩ := hp ▸ hat
      have hfree : t.inLibrary = false := hflag.trans hout
      refine .inr ⟨_, by rw [Thread.constructContext, hfree]; rfl, InvAt.goto ?_⟩
      exact ⟨rfl, hmutex, ⟨hbefore, hout⟩, hbelow⟩
  | guarded c =>
      obtain ⟨hflag, hmutex, ⟨hbefore, hout⟩, hbelow⟩ := hp ▸ hat
      have hfree : t.holdsMutex = false := hmutex.trans (hbelow.holds_eq_false hout)
      refine .inr ⟨_, by rw [Thread.lock, hfree]; rfl, InvAt.goto ?_⟩
      exact ⟨hflag, rfl, ⟨hbefore, hout⟩, hbelow⟩
  | locked c =>
      obtain ⟨hflag, hmutex, hfits, hbelow⟩ := hp ▸ hat
      exact .inr ⟨_, rfl, InvAt.goto ⟨hflag, hmutex, hfits, hbelow⟩⟩
  | acting calls crashes =>
      obtain ⟨hflag, hmutex, ⟨hbefore, hout⟩, hbelow⟩ := hp ▸ hat
      cases calls with
      | nil =>
          dsimp only
          split_ifs
          · exact .inl rfl
          · have hfree : false = below.any Frame.holds := (hbelow.holds_eq_false hout).symm
            exact .inr ⟨_, rfl, InvAt.goto ⟨hflag, hfree, ⟨hbefore, hout⟩, hbelow⟩⟩
      | cons call calls =>
          have hnext : InvAt t f below (.acting calls crashes) :=
            ⟨hflag, hmutex, ⟨hbefore, hout⟩, hbelow⟩
          cases call with
          | preferred => exact .inr ⟨_, rfl, hnext.flag, hnext.mutex, hnext.fits, hbelow⟩
          | memalign alignment size => exact .inr ⟨_, rfl, hnext.goto.push _ _⟩
  | unlocked =>
      obtain ⟨hflag, hmutex, ⟨hbefore, hout⟩, hbelow⟩ := hp ▸ hat
      have hset : t.inLibrary = true := hflag
      have hnot : ¬ insideLibrary below = true := Bool.not_eq_true _ ▸ hout
      refine .inr ⟨_, by rw [Thread.destroyContext, hset]; rfl, InvAt.goto ?_⟩
      exact ⟨hout.symm, hmutex, ⟨hbefore, fun hin => absurd hin hnot⟩, hbelow⟩
  | returning =>
      obtain ⟨hflag, hmutex, -, hbelow⟩ := hp ▸ hat
      exact .inr ⟨_, rfl, hflag, hmutex, hbelow⟩

theorem Inv.advancePatrol {function : PatrolFunction} {point : PatrolPoint} (h : Inv t)
    (hs : t.stack = .patrol function point :: below) (r : Reads) :
    Good (advancePatrol env t function point below r) := by
  obtain ⟨hflag, hmutex, hsound⟩ := h
  rw [hs] at hflag hmutex hsound
  obtain ⟨⟨hin, hfree⟩, hbelow⟩ := hsound
  rw [List.any_cons, hfree, Bool.or_false] at hmutex
  cases point with
  | entered =>
      refine .inr ⟨{ t with holdsMutex := true, stack := .patrol function .locked :: below }, ?_,
        hflag, rfl, ⟨hin, hfree⟩, hbelow⟩
      rw [Reentrancy.advancePatrol, Thread.lock, hmutex]
      rfl
  | locked =>
      refine .inr ⟨_, rfl, hflag, ?_, ⟨hin, hfree⟩, hbelow⟩
      rw [List.any_cons, hfree]
      exact hmutex
  | updated =>
      refine .inr ⟨_, rfl, hflag, ?_, ⟨hin, hfree⟩, hbelow⟩
      rw [List.any_cons, hfree]
      rfl
  | returning => exact .inr ⟨_, rfl, hflag, hmutex.trans hfree.symm, hbelow⟩

/-- The patrol thread's loop is called by nothing. -/
theorem Inv.monitorMain {inBody : Bool} (h : Inv t)
    (hs : t.stack = .monitorMain inBody :: below) :
    below = [] ∧ t.inLibrary = inBody ∧ t.holdsMutex = false := by
  obtain ⟨hflag, hmutex, hsound⟩ := h
  rw [hs] at hflag hmutex hsound
  have hempty : below = [] := hsound.1
  subst hempty
  exact ⟨rfl, hflag.trans (Bool.or_false _), hmutex⟩

theorem Inv.next (h : Inv t) (a : Action) : Good (next env t a) := by
  cases a with
  | call asked site => exact .inr ⟨_, rfl, h.push asked site⟩
  | spawn =>
      refine .inr ⟨_, rfl, ?_⟩
      split_ifs with hempty
      · obtain ⟨hflag, hmutex, -⟩ := h
        rw [hempty] at hflag hmutex
        exact ⟨hflag, hmutex, rfl, trivial⟩
      · exact h
  | callPatrol function =>
      unfold Reentrancy.next
      dsimp only
      split
      · rename_i below hs
        obtain ⟨rfl, hflag, hmutex⟩ := h.monitorMain hs
        refine .inr ⟨{ t with stack := .patrol function .entered :: t.stack }, rfl, ?_⟩
        rw [hs]
        exact ⟨hflag, hmutex, ⟨rfl, rfl⟩, rfl, trivial⟩
      · exact .inr ⟨_, rfl, h⟩
  | advance r =>
      unfold Reentrancy.next
      dsimp only
      split
      · exact .inr ⟨_, rfl, h⟩
      · exact .inr ⟨_, rfl, h⟩
      · exact h.advanceWrapped (by assumption) r
      · exact h.advancePatrol (by assumption) r
      · rename_i below hs
        obtain ⟨rfl, hflag, hmutex⟩ := h.monitorMain hs
        refine .inr ⟨{ t with inLibrary := true, stack := [.monitorMain true] }, ?_, rfl, hmutex,
          rfl, trivial⟩
        rw [Thread.constructContext, hflag]
        rfl
  | others table =>
      refine .inr ⟨_, rfl, ?_⟩
      split_ifs
      · exact h
      · exact ⟨h.flag, h.mutex, h.sound⟩

theorem run_concat (table : AllocationTable) (actions : List Action) (a : Action) :
    run env table (actions ++ [a]) = (run env table actions).bind fun t => next env t a := by
  simp only [run, List.foldlM_append, List.foldlM_cons, List.foldlM_nil, bind_pure]
  rfl

theorem good_run (env : Environment) (table : AllocationTable) (actions : List Action) :
    Good (run env table actions) := by
  induction actions using List.reverseRecOn with
  | nil => exact .inr ⟨_, rfl, inv_init table⟩
  | append_singleton actions a ih =>
      rw [run_concat]
      cases ih with
      | inl hcrash =>
          rw [hcrash]
          exact .inl rfl
      | inr hok =>
          obtain ⟨t, ht, h⟩ := hok
          rw [ht]
          exact h.next a

/-- The frame on top was called outside any `LibraryContext`, or it is the patrol's
update. -/
def MayWrite : List Frame → Prop
  | .wrapped _ :: below => insideLibrary below = false
  | .patrol function _ :: _ => function = .updateAllocationStates
  | _ => False

/-- The other threads take this step. -/
def Action.ByOthers : Action → Prop
  | .others _ => True
  | _ => False

theorem table_constructContext (h : t.constructContext = .ok t') : t'.table = t.table := by
  unfold Thread.constructContext at h
  split_ifs at h
  rw [← Except.ok.inj h]

theorem table_destroyContext (h : t.destroyContext = .ok t') : t'.table = t.table := by
  unfold Thread.destroyContext at h
  split_ifs at h
  rw [← Except.ok.inj h]

theorem table_lock (h : t.lock = .ok t') : t'.table = t.table := by
  unfold Thread.lock at h
  split_ifs at h
  rw [← Except.ok.inj h]

/-- A step that keeps the table does not write. -/
theorem not_writes {t₁ : Thread} (h : (.ok t₁ : Except Fault Thread) = .ok t')
    (hsame : t₁.table = t.table) : ¬ t'.table ≠ t.table :=
  not_not.mpr ((congrArg Thread.table (Except.ok.inj h)).symm.trans hsame)

/-- Whatever is done with the result of a step that may fail. -/
theorem exists_of_map_eq_ok {step : Except Fault Thread} {g : Thread → Thread}
    (h : step.map g = .ok t') : ∃ t₁, step = .ok t₁ ∧ t' = g t₁ := by
  cases step with
  | error fault => cases h
  | ok t₁ => exact ⟨t₁, rfl, (Except.ok.inj h).symm⟩

theorem locked_of_advanceWrapped {r : Reads}
    (hnext : advanceWrapped env t f below r = .ok t') (hwrites : t'.table ≠ t.table) :
    ∃ c, f.point = .locked c := by
  unfold advanceWrapped at hnext
  cases hp : f.point with
  | locked c => exact ⟨c, rfl⟩
  | unguarded c | guarded c | unlocked =>
      rw [hp] at hnext
      obtain ⟨t₁, hstep, rfl⟩ := exists_of_map_eq_ok hnext
      first
        | exact absurd (table_constructContext hstep) hwrites
        | exact absurd (table_lock hstep) hwrites
        | exact absurd (table_destroyContext hstep) hwrites
  | acting calls crashes =>
      rw [hp] at hnext
      rcases calls with _ | ⟨_ | _, calls⟩
      · dsimp only at hnext
        split_ifs at hnext
        exact absurd hwrites (not_writes hnext rfl)
      · exact absurd hwrites (not_writes hnext rfl)
      · exact absurd hwrites (not_writes hnext rfl)
  | entered | bypassing | returning =>
      rw [hp] at hnext
      exact absurd hwrites (not_writes hnext rfl)

theorem updates_of_advancePatrol {function : PatrolFunction} {point : PatrolPoint} {r : Reads}
    (hnext : advancePatrol env t function point below r = .ok t') (hwrites : t'.table ≠ t.table) :
    function = .updateAllocationStates := by
  cases point with
  | entered =>
      obtain ⟨t₁, hstep, rfl⟩ := exists_of_map_eq_ok hnext
      exact absurd (table_lock hstep) hwrites
  | locked =>
      cases function with
      | updateAllocationStates => rfl
      | makeLeakReport =>
          exact absurd hwrites (not_writes hnext rfl)
  | updated | returning =>
      exact absurd hwrites (not_writes hnext rfl)

theorem Inv.mayWrite (h : Inv t) {a : Action} (hnext : Reentrancy.next env t a = .ok t')
    (hwrites : t'.table ≠ t.table) : a.ByOthers ∨ MayWrite t.stack := by
  cases a with
  | others table => exact .inl trivial
  | call asked site => exact absurd hwrites (not_writes hnext rfl)
  | spawn =>
      rw [← Except.ok.inj hnext] at hwrites
      split_ifs at hwrites <;> exact absurd rfl hwrites
  | callPatrol function =>
      unfold Reentrancy.next at hnext
      dsimp only at hnext
      split at hnext <;> exact absurd hwrites (not_writes hnext rfl)
  | advance r =>
      unfold Reentrancy.next at hnext
      dsimp only at hnext
      split at hnext
      · exact absurd hwrites (not_writes hnext rfl)
      · exact absurd hwrites (not_writes hnext rfl)
      · rename_i f below hs
        obtain ⟨c, hp⟩ := locked_of_advanceWrapped hnext hwrites
        have hfits := (h.at hs).fits.2
        rw [hp] at hfits
        rw [hs]
        exact .inr hfits
      · rename_i function point below hs
        rw [hs]
        exact .inr (updates_of_advancePatrol hnext hwrites)
      · obtain ⟨t₁, hstep, rfl⟩ := exists_of_map_eq_ok hnext
        exact absurd (table_constructContext hstep) hwrites

/-- No assertion fails and the lock is never taken twice. The flag says whether some
frame has a `LibraryContext`. Only the patrol and calls made outside any
`LibraryContext` change the table. A call ends with the flag as it was, and one that
was made inside a `LibraryContext` has been forwarded once, unless it is
`free(NULL)`. -/
theorem reentrancy_safe (env : Environment) (table : AllocationTable) (actions : List Action) :
    (∀ fault, run env table actions = .error fault → fault = .crashed) ∧
      ∀ t, run env table actions = .ok t →
        (t.inLibrary = true ↔ ∃ f ∈ t.stack, f.inContext = true) ∧
        (∀ a t', next env t a = .ok t' → t'.table ≠ t.table → a.ByOthers ∨ MayWrite t.stack) ∧
        ∀ f below, t.stack = .wrapped f :: below → f.point = .returning →
          t.inLibrary = f.inLibraryBefore ∧
            ((∃ g ∈ below, g.inContext = true) → f.asked ≠ .free 0 → f.forwards = [f.asked]) := by
  have hgood := good_run env table actions
  constructor
  · intro fault hfault
    cases hgood with
    | inl hcrash => exact Except.error.inj (hfault.symm.trans hcrash)
    | inr hok =>
        obtain ⟨t, ht, -⟩ := hok
        cases hfault.symm.trans ht
  · intro t ht
    have h : Inv t := by
      cases hgood with
      | inl hcrash => cases ht.symm.trans hcrash
      | inr hok =>
          obtain ⟨t₁, ht₁, h⟩ := hok
          exact Except.ok.inj (ht.symm.trans ht₁) ▸ h
    refine ⟨?_, fun a t' hnext hwrites => h.mayWrite hnext hwrites, ?_⟩
    · rw [h.flag, insideLibrary, List.any_eq_true]
    · intro f below hs hp
      obtain ⟨hflag, -, ⟨hbefore, hforwards⟩, -⟩ := hp ▸ h.at hs
      refine ⟨hflag.trans hbefore.symm, fun hin => hforwards ?_⟩
      rwa [insideLibrary, List.any_eq_true]

/-- The frame on top is not nested in a wrapped function. -/
def Outermost : List Frame → Prop
  | .wrapped _ :: below => ∀ g, .wrapped g ∉ below
  | .patrol function _ :: _ => function = .updateAllocationStates
  | _ => False

/-- Only outermost calls and the patrol write. -/
def OutermostWrites (env : Environment) (t : Thread) : Prop :=
  ∀ a t', next env t a = .ok t' → t'.table ≠ t.table → a.ByOthers ∨ Outermost t.stack

/-- Every nested call but `free(NULL)` is forwarded once. -/
def NestedForwarded (t : Thread) : Prop :=
  ∀ f below, t.stack = .wrapped f :: below → f.point = .returning →
    (∃ g, .wrapped g ∈ below) → f.asked ≠ .free 0 → f.forwards = [f.asked]

/-- The real function of a `malloc` that is not watched calls `malloc`, which is, in
that many steps. -/
def nestedMalloc (steps : ℕ) : List Action :=
  [.call (.malloc 100) ⟨0, 0⟩, .advance { watchState := .notWatching }, .advance {},
    .call (.malloc 24) ⟨0, 0⟩] ++ List.replicate steps (.advance { answer := 4096 })

/-- The table after another thread's `malloc` of the same fingerprint has become
suspicious. -/
def suspiciousTable : AllocationTable :=
  ((AllocationTable.empty.instrumentedAllocate .default ⟨.watching, false, 0, 0, ⟨[]⟩⟩ 24 1
    (makeCallstackFingerprint ⟨0, 0⟩ 24) (fun _ => 8192)
    .unnecessary).table.patrolThreadUpdateAllocationStates .default 40 [8192] []).1

/-- The nested call is watched, so it changes the table and asks `memalign`. -/
theorem not_nestedBypass :
    (¬ ∀ table actions t, run .default table actions = .ok t → OutermostWrites .default t) ∧
      ¬ ∀ table actions t, run .default table actions = .ok t → NestedForwarded t := by
  constructor
  · intro h
    have houter := h suspiciousTable (nestedMalloc 3) _ rfl (.advance { answer := 4096 }) _ rfl
      fun heq => absurd (congrArg (fun table => table.stats.allocationCount) heq) (by decide)
    cases houter with
    | inl hothers => exact hothers
    | inr houter => exact houter _ List.mem_cons_self
  · intro h
    have hforwards := h suspiciousTable (nestedMalloc 10) _ rfl _ _ rfl rfl
      ⟨_, List.mem_cons_self⟩ (by decide)
    exact absurd hforwards (by decide)

end Reentrancy
end AllocCounter
