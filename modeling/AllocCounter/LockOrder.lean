import AllocCounter.LockedSections

/-!
# The order of the lock

Seen from outside, an instrumented call changes the table at one moment, which lies
between its call and its return. The accesses of the threads mix, but the table is the
one that the operations give when they are done one after another, in the order in
which their threads took the lock, and each of them gets the answer it has there.
-/
namespace AllocCounter.LockedSections

open Reentrancy Threads

variable {env : Environment} {v v' : Thread} {p p' : Option Remaining} {a : Action}
  {order : ReportOrder} {done : Option (Operation × Result)} {f g : Frame}
  {below : List Frame}

theorem mem_below (hlocked : Locked f) (hg : ¬ Locked g) (hf : f ∈ g :: below) : f ∈ below :=
  List.mem_of_ne_of_mem (fun heq : f = g => hg (heq ▸ hlocked)) hf

/-- A frame comes into its section where its thread takes the lock. -/
theorem locked_of_threadStep (h : ThreadStep env v a v') (hf : f ∈ v'.stack)
    (hlocked : Locked f) : f ∈ v.stack ∨ v.holdsMutex = false := by
  cases h with
  | call asked site => exact .inl (mem_below hlocked (by simp [Locked]) hf)
  | spawn hempty =>
      have hnone := mem_below hlocked (by simp [Locked]) hf
      cases hnone
  | callPatrol function below hs => exact .inl (hs ▸ mem_below hlocked (by simp [Locked]) hf)
  | enterLoop r below hs =>
      exact .inl (hs ▸ List.mem_cons_of_mem _ (mem_below hlocked (by simp [Locked]) hf))
  | wrapped r g below v' hs h =>
      rw [hs]
      cases h with
      | lock c hp hfree => exact .inr hfree
      | finish => exact .inl (List.mem_cons_of_mem _ hf)
      | test c hp hc =>
          refine .inl (List.mem_cons_of_mem _ (mem_below hlocked ?_ hf))
          rintro ⟨c', hp'⟩
          dsimp only at hp'
          split_ifs at hp'
      | memalign =>
          have hrest := mem_below hlocked (by simp [Locked]) hf
          exact .inl (List.mem_cons_of_mem _ (mem_below hlocked (by simp [Locked]) hrest))
      | _ => exact .inl (List.mem_cons_of_mem _ (mem_below hlocked (by simp [Locked]) hf))
  | patrol r function point below v' hs h =>
      rw [hs]
      cases h with
      | lock hfree => exact .inr hfree
      | finish => exact .inl (List.mem_cons_of_mem _ hf)
      | _ => exact .inl (List.mem_cons_of_mem _ (mem_below hlocked (by simp [Locked]) hf))
  | idle a h => exact .inl hf

/-- A section that is completed was the only one of its thread. -/
theorem not_locked_completed {stack : List Frame} {result : Result}
    (hsound : Sound (g :: below)) (hs : stack = g :: below) (hg : Locked g)
    (hf : f ∈ completed stack result) : ¬ Locked f := by
  intro hlocked
  have hbelow : f ∈ below := by
    subst hs
    cases g with
    | wrapped g => exact mem_below hlocked (by simp [Locked]) hf
    | patrol function point => exact mem_below hlocked (by simp [Locked]) hf
    | monitorMain => exact hg.elim
  exact List.any_eq_false.mp (not_holds_below hsound hg) f hbelow hlocked.holds

/-- A thread is in a section after its step if it was before, and the step completes
none, or if it takes the lock. -/
theorem SectionStep.locked (h : SectionStep env v p a order v' p' done) (hinv : Inv v)
    (hf : f ∈ v'.stack) (hlocked : Locked f) :
    (f ∈ v.stack ∨ v.holdsMutex = false) ∧ done = none := by
  cases h with
  | outside v' hout hnext h => exact ⟨locked_of_threadStep h hf hlocked, rfl⟩
  | begins => exact ⟨.inl hf, rfl⟩
  | accesses => exact ⟨.inl hf, rfl⟩
  | completes o o' result hin =>
      obtain ⟨g, below, hs, hdoes, -⟩ := operation_spec hin
      exact absurd hlocked (not_locked_completed (hs ▸ hinv.sound) hs hdoes.locked hf)

section

variable {T : Type*} [DecidableEq T] (x : Execution (Initial (T := T)) (Step env)) {t : T}
  {i j l : ℕ} {o : Operation} {result : Result}

/-- A thread's step, seen in the execution. -/
theorem own_step (hi : i < x.length) (hthread : (x.event i).thread = t) :
    ∃ v p, SectionStep env ((x.state i).thread t) ((x.state i).remaining t) (x.event i).action
      (x.event i).order v p (completedAt x i) ∧ (x.state (i + 1)).stack t = v.stack := by
  subst hthread
  obtain ⟨v, p, hown, hsucc, -⟩ := step_spec (x.steps i hi)
  refine ⟨v, p, hown, ?_⟩
  rw [hsucc]
  exact stack_put_self v

theorem stack_other (hi : i < x.length) (hne : (x.event i).thread ≠ t) :
    (x.state (i + 1)).stack t = (x.state i).stack t := by
  obtain ⟨v, p, -, hsucc, -⟩ := step_spec (x.steps i hi)
  rw [hsucc]
  exact stack_put_of_ne v hne.symm

/-- A thread that completes an operation had the lock. -/
theorem holder_of_completedAt (hi : i < x.length) (h : completedAt x i ≠ none) :
    (x.state i).holder = some (x.event i).thread := by
  obtain ⟨v, p, hown, -, -⟩ := step_spec (x.steps i hi)
  rw [completedAt] at h
  generalize completion env _ _ _ _ = done at hown h
  cases hown with
  | completes o o' result hin =>
      obtain ⟨f, below, hs, hdoes, -⟩ := operation_spec hin
      have hmem : f ∈ (x.state i).stack (x.event i).thread :=
        List.mem_of_mem_head? (congrArg List.head? hs)
      exact (consistent_at x i hi.le).holder_of_locked hmem hdoes.locked
  | outside | begins | accesses => exact absurd rfl h

/-- The thread took the lock at `l`, has had it since, and no operation has been
completed since. -/
structure HeldSince (t : T) (l n : ℕ) : Prop where
  before : l < n
  free : (x.state l).holder ≠ some t
  held : ∀ k, l < k → k ≤ n → (x.state k).holder = some t
  alone : ∀ k, l < k → k < n → completedAt x k = none

variable {x}

theorem HeldSince.succ {n : ℕ} (h : HeldSince x t l n)
    (hheld : (x.state (n + 1)).holder = some t) (hnone : completedAt x n = none) :
    HeldSince x t l (n + 1) where
  before := h.before.trans (Nat.lt_succ_self n)
  free := h.free
  held := by
    intro k hlk hk
    cases Nat.lt_or_eq_of_le hk with
    | inl hlt => exact h.held k hlk (Nat.le_of_lt_succ hlt)
    | inr heq => exact heq ▸ hheld
  alone := by
    intro k hlk hk
    cases Nat.lt_succ_iff_lt_or_eq.mp hk with
    | inl hlt => exact h.alone k hlk hlt
    | inr heq => exact heq ▸ hnone

/-- A thread that is in a section has had the lock since it took it. -/
theorem heldSince_of_locked : ∀ n ≤ x.length,
    ∀ t, ∀ f ∈ (x.state n).stack t, Locked f → ∃ l, HeldSince x t l n := by
  intro n
  induction n with
  | zero =>
      intro _ t f hf
      rw [(x.starts.1.2 t).1] at hf
      cases hf
  | succ n ih =>
      intro hn t f hf hlocked
      have hconsistent := consistent_at x n (Nat.le_of_succ_le hn)
      have hheld : (x.state (n + 1)).holder = some t :=
        (consistent_at x (n + 1) hn).holder_of_locked hf hlocked
      by_cases hthread : (x.event n).thread = t
      · obtain ⟨v, p, hown, hstack⟩ := own_step x hn hthread
        obtain ⟨hmem | hfree, hnone⟩ := hown.locked (hconsistent.threads t) (hstack ▸ hf) hlocked
        · obtain ⟨l, hl⟩ := ih (Nat.le_of_succ_le hn) t f hmem hlocked
          exact ⟨l, hl.succ hheld hnone⟩
        · refine ⟨n, Nat.lt_succ_self n, of_decide_eq_false hfree, fun k hnk hk => ?_, ?_⟩
          · exact Nat.le_antisymm hk hnk ▸ hheld
          · exact fun k hnk hk => absurd hnk (Nat.not_lt.mpr (Nat.le_of_lt_succ hk))
      · have hother := stack_other x hn hthread
        have hbefore : (x.state n).holder = some t :=
          hconsistent.holder_of_locked (hother ▸ hf) hlocked
        obtain ⟨l, hl⟩ := ih (Nat.le_of_succ_le hn) t f (hother ▸ hf) hlocked
        refine ⟨l, hl.succ hheld ?_⟩
        by_contra hne
        have hu := holder_of_completedAt x hn hne
        exact hthread (Option.some.inj (hu.symm.trans hbefore))

/-- The sections follow in the order in which their threads took the lock. -/
theorem HeldSince.lt {u : T} {l' : ℕ} (hi : HeldSince x t l i) (hj : HeldSince x u l' j)
    (hij : i < j) (h : completedAt x i ≠ none) : l < l' := by
  by_contra hle
  exact h (hj.alone i ((Nat.not_lt.mp hle).trans_lt hi.before) hij)

/-- A section completes its operation with the answer that the sequence gives. -/
theorem section_of_completedAt (hi : i < x.length) (h : completedAt x i = some (o, result)) :
    result = (o.apply env (sequential x i)).2 ∧ ∃ l, HeldSince x (x.event i).thread l i := by
  obtain ⟨v, p, hown, -⟩ := own_step x hi rfl
  rw [h] at hown
  cases hown with
  | completes o o' result hin hp =>
      have hrun := (sectionsAt x i hi.le).busy _ o _ hp
      obtain ⟨f, below, hs, hdoes, -⟩ := operation_spec hin
      have hmem : f ∈ (x.state i).stack (x.event i).thread :=
        List.mem_of_mem_head? (congrArg List.head? hs)
      exact ⟨congrArg Prod.snd hrun, heldSince_of_locked i hi.le _ f hmem hdoes.locked⟩

end

/-- How the frame of a call goes on, by itself, outside its section. -/
inductive Goes (env : Environment) (asked : AllocatorCall) (inLibrary : Bool) (r : Reads) :
    Point → Point → Prop
  | test (c : Caller) (hc : c = ⟨r.watchState, inLibrary, r.time, r.clock, r.stackTrace⟩) :
      Goes env asked inLibrary r .entered
        (if (asked.wrapped env).isFreeNull then .returning
        else if AllocationTable.Bypasses c then .bypassing
        else .unguarded c)
  | bypass : Goes env asked inLibrary r .bypassing .returning
  | guard (c : Caller) : Goes env asked inLibrary r (.unguarded c) (.guarded c)
  | lock (c : Caller) : Goes env asked inLibrary r (.guarded c) (.locked c)
  | real (call : RealCall) (calls : List RealCall) (crashes : Bool) :
      Goes env asked inLibrary r (.acting (call :: calls) crashes) (.acting calls crashes)
  | unlock : Goes env asked inLibrary r (.acting [] false) .unlocked
  | leave : Goes env asked inLibrary r .unlocked .returning

/-- What becomes of a call by a step of its thread: nothing, if it is not on top, or
another function is called, or its section goes on; or it goes on, or completes its
section, or returns. -/
inductive FrameStep (env : Environment) (v : Thread) (above : List Frame) (f : WrappedFrame)
    (base : List Frame) (a : Action) (v' : Thread) (done : Option (Operation × Result)) : Prop
  | stays (above' : List Frame) (hs : v'.stack = above' ++ .wrapped f :: base)
      (hnot : above ≠ [] ∨ done = none)
  | goes (r : Reads) (above' : List Frame) (f' : WrappedFrame) (hempty : above = [])
      (ha : a = .advance r) (hs : v'.stack = above' ++ .wrapped f' :: base)
      (hasked : f'.asked = f.asked) (hsite : f'.site = f.site)
      (hgoes : Goes env f.asked v.inLibrary r f.point f'.point) (hnone : done = none)
  | completes (c : Caller) (r : Reads) (result : Result) (f' : WrappedFrame) (calls : List RealCall)
      (crashes : Bool) (hempty : above = []) (hp : f.point = .locked c)
      (hs : v'.stack = .wrapped f' :: base) (hasked : f'.asked = f.asked)
      (hsite : f'.site = f.site) (hacting : f'.point = .acting calls crashes)
      (hdone : done = some (.call c r f.site (f.asked.wrapped env), result))
  | returns (hempty : above = []) (hp : f.point = .returning) (hs : v'.stack = base)

/-- What a call goes on to by a step outside its section. -/
theorem frameStep_outside {base : List Frame} {f : WrappedFrame} (h : ThreadStep env v a v')
    (hout : operation env v.stack a order = none) (hs : v.stack = .wrapped f :: base) :
    FrameStep env v [] f base a v' none := by
  cases h with
  | call asked site => exact .stays [_] (by simp [Thread.push, hs]; rfl) (.inr rfl)
  | spawn h => simp [h] at hs
  | callPatrol function below h => simp [h] at hs
  | enterLoop r below h => simp [h] at hs
  | patrol r function point below v' h => simp [h] at hs
  | idle a h => exact .stays [] hs (.inr rfl)
  | wrapped r f' below v' h hstep =>
      rw [h] at hs
      obtain ⟨hf, hbelow⟩ := List.cons.inj hs
      rw [Frame.wrapped.inj hf] at hstep
      rw [hbelow] at hstep
      cases hstep with
      | test c hp hc => exact .goes r [] _ rfl rfl rfl rfl rfl (hp ▸ .test c hc) rfl
      | bypass hp => exact .goes r [] _ rfl rfl rfl rfl rfl (hp ▸ .bypass) rfl
      | guard c hp => exact .goes r [] _ rfl rfl rfl rfl rfl (hp ▸ .guard c) rfl
      | lock c hp => exact .goes r [] _ rfl rfl rfl rfl rfl (hp ▸ .lock c) rfl
      | act c hp => simp [operation, h, Frame.wrapped.inj hf, hp] at hout
      | forward calls crashes hp =>
          exact .goes r [] _ rfl rfl rfl rfl rfl (hp ▸ .real _ calls crashes) rfl
      | memalign alignment size calls crashes hp =>
          exact .goes r [_] _ rfl rfl rfl rfl rfl (hp ▸ .real _ calls crashes) rfl
      | unlock hp => exact .goes r [] _ rfl rfl rfl rfl rfl (hp ▸ .unlock) rfl
      | leave hp => exact .goes r [] _ rfl rfl rfl rfl rfl (hp ▸ .leave) rfl
      | finish hp => exact .returns rfl hp rfl

/-- A step of a section keeps what is below the frame on top. -/
theorem SectionStep.suffix {top : Frame} {rest : List Frame}
    (h : SectionStep env v p a order v' p' done) (hs : v.stack = top :: rest) :
    ∃ new, v'.stack = new ++ rest := by
  cases h with
  | outside v' hout hnext h => exact suffix_of_step h hs
  | begins => exact ⟨[top], hs⟩
  | accesses => exact ⟨[top], hs⟩
  | completes o o' result =>
      rw [hs]
      cases top with
      | wrapped | patrol => exact ⟨[_], rfl⟩
      | monitorMain => exact ⟨[_], rfl⟩

theorem SectionStep.frameStep {above base : List Frame} {f : WrappedFrame}
    (h : SectionStep env v p a order v' p' done) (hinv : Inv v)
    (hdoes : ∀ o program, p = some (o, program) → ∃ g ∈ v.stack, Does env g o)
    (hs : v.stack = above ++ .wrapped f :: base) : FrameStep env v above f base a v' done := by
  cases above with
  | cons top rest =>
      obtain ⟨new, hnew⟩ := h.suffix hs
      exact .stays (new ++ rest) (by simp [hnew]) (.inl (List.cons_ne_nil _ _))
  | nil =>
      rw [List.nil_append] at hs
      cases h with
      | outside v' hout hnext h => exact frameStep_outside h hout hs
      | begins => exact .stays [] hs (.inr rfl)
      | accesses => exact .stays [] hs (.inr rfl)
      | completes o o' result hin hp =>
          obtain ⟨top, below, htop, hlocked, -⟩ := operation_spec hin
          obtain ⟨g, hg, ho⟩ := hdoes o _ hp
          -- the operation is that of the frame on top, the only one with the lock
          have hsound := hinv.sound
          rw [htop] at hg hsound
          obtain rfl := eq_of_locked hsound hlocked.locked hg ho.locked
          obtain ⟨rfl, rfl⟩ := List.cons.inj (htop.symm.trans hs)
          cases o with
          | call c r site called =>
              obtain ⟨hpoint, rfl, rfl⟩ := ho
              have hstack : completed v.stack result = .wrapped
                  { f with point := .acting result.called.1 result.called.2 } :: below := by
                rw [hs]
                rfl
              exact .completes c r result _ _ _ rfl hpoint hstack rfl rfl rfl rfl
          | update | report => exact ho.elim

section

variable {T : Type*} [DecidableEq T] (x : Execution (Initial (T := T)) (Step env)) (t : T)
  (asked : AllocatorCall) (site : CallSite) (m : ℕ)

/-- The function that the thread calls at `m` returns at `n`. -/
structure CallReturns (n : ℕ) : Prop where
  thread : (x.event m).thread = t
  starts : (x.event m).action = .call asked site
  after : m < n
  within : ∀ i, m < i → i ≤ n → ((x.state m).stack t).length < ((x.state i).stack t).length
  returns : ((x.state (n + 1)).stack t).length ≤ ((x.state m).stack t).length
  ends : n < x.length

/-- At `k` the call makes its tests, as this caller. -/
def Tests (k : ℕ) (c : Caller) : Prop :=
  ∃ r f, (x.event k).thread = t ∧ (x.event k).action = .advance r ∧ f.point = .entered ∧
    (x.state k).stack t = .wrapped f :: (x.state m).stack t ∧
    c = ⟨r.watchState, (x.state k).inLibrary t, r.time, r.clock, r.stackTrace⟩

/-- At `i` the call itself, not one that it has led to, completes the operation. -/
def Operates (i : ℕ) (o : Operation) : Prop :=
  (x.event i).thread = t ∧ ((x.state i).stack t).length = ((x.state m).stack t).length + 1 ∧
    ∃ result, completedAt x i = some (o, result)

variable (env) in
/-- The call has nothing to do with the table. -/
def PassesBy (c : Caller) : Prop :=
  (asked.wrapped env).isFreeNull = true ∨ AllocationTable.Bypasses c

/-- The call has done one operation before `i`, its own, after the tests at `k`. -/
def OperatedOnce (k i : ℕ) (c : Caller) : Prop :=
  ∃ j r, k < j ∧ j < i ∧ Operates x t m j (.call c r site (asked.wrapped env)) ∧
    ∀ j' o, m < j' → j' < i → Operates x t m j' o → j' = j

/-- What the call has done before `i`, by the point it is at. -/
inductive Progress (i : ℕ) : Point → Prop
  | entered (hnone : ∀ j o, m < j → j < i → ¬ Operates x t m j o) : Progress i .entered
  | passing (k : ℕ) (c : Caller) (p : Point) (hk : m < k) (hki : k < i) (htests : Tests x t m k c)
      (hpasses : PassesBy env asked c)
      (hnone : ∀ j o, m < j → j < i → ¬ Operates x t m j o)
      (hp : p = .bypassing ∨ p = .returning) : Progress i p
  | going (k : ℕ) (c : Caller) (p : Point) (hk : m < k) (hki : k < i) (htests : Tests x t m k c)
      (hpasses : ¬ PassesBy env asked c)
      (hnone : ∀ j o, m < j → j < i → ¬ Operates x t m j o)
      (hp : p = .unguarded c ∨ p = .guarded c ∨ p = .locked c) : Progress i p
  | done (k : ℕ) (c : Caller) (p : Point) (hk : m < k) (hki : k < i) (htests : Tests x t m k c)
      (hpasses : ¬ PassesBy env asked c) (honce : OperatedOnce x t asked site m k i c)
      (hp : (∃ calls crashes, p = .acting calls crashes) ∨ p = .unlocked ∨ p = .returning) :
      Progress i p

variable {x t asked site m} {n i k : ℕ} {c : Caller} {point point' : Point} {f : WrappedFrame}
  {r : Reads}

theorem none_succ (h : ∀ j o, m < j → j < i → ¬ Operates x t m j o)
    (hi : ∀ o, ¬ Operates x t m i o) : ∀ j o, m < j → j < i + 1 → ¬ Operates x t m j o := by
  intro j o hmj hj
  cases Nat.lt_succ_iff_lt_or_eq.mp hj with
  | inl hlt => exact h j o hmj hlt
  | inr heq => exact heq ▸ hi o

theorem OperatedOnce.succ (h : OperatedOnce x t asked site m k i c)
    (hi : ∀ o, ¬ Operates x t m i o) : OperatedOnce x t asked site m k (i + 1) c := by
  obtain ⟨j, r, hkj, hji, hop, hunique⟩ := h
  refine ⟨j, r, hkj, hji.trans (Nat.lt_succ_self i), hop, fun j' o hmj' hj' ho => ?_⟩
  cases Nat.lt_succ_iff_lt_or_eq.mp hj' with
  | inl hlt => exact hunique j' o hmj' hlt ho
  | inr heq => exact absurd (heq ▸ ho) (hi o)

/-- While the call completes no operation its progress stands. -/
theorem Progress.succ (h : Progress x t asked site m i point) (hi : ∀ o, ¬ Operates x t m i o) :
    Progress x t asked site m (i + 1) point := by
  cases h with
  | entered hnone => exact .entered (none_succ hnone hi)
  | passing k c p hk hki htests hpasses hnone hp =>
      exact .passing k c _ hk (hki.trans (Nat.lt_succ_self i)) htests hpasses
        (none_succ hnone hi) hp
  | going k c p hk hki htests hpasses hnone hp =>
      exact .going k c _ hk (hki.trans (Nat.lt_succ_self i)) htests hpasses
        (none_succ hnone hi) hp
  | done k c p hk hki htests hpasses honce hp =>
      exact .done k c _ hk (hki.trans (Nat.lt_succ_self i)) htests hpasses (honce.succ hi) hp

theorem not_operates (hnone : completedAt x i = none) (o : Operation) :
    ¬ Operates x t m i o := by
  rintro ⟨-, -, result, h⟩
  cases hnone.symm.trans h

/-- The progress of a call that goes on outside its section. -/
theorem Progress.goes (h : Progress x t asked site m i f.point) (hmi : m < i)
    (hthread : (x.event i).thread = t) (hevent : (x.event i).action = .advance r)
    (hstack : (x.state i).stack t = .wrapped f :: (x.state m).stack t)
    (hgoes : Goes env asked ((x.state i).inLibrary t) r f.point point')
    (hi : ∀ o, ¬ Operates x t m i o) : Progress x t asked site m (i + 1) point' := by
  generalize hp : f.point = p at h hgoes
  cases hgoes with
  | test c hc =>
      have htests : Tests x t m i c := ⟨r, f, hthread, hevent, hp, hstack, hc⟩
      have hnone : ∀ j o, m < j → j < i → ¬ Operates x t m j o := by
        cases h with
        | entered hnone => exact hnone
        | passing | going | done => simp_all
      have hsucc := none_succ hnone hi
      split_ifs with hnull hbypass
      · exact .passing i c _ hmi (Nat.lt_succ_self i) htests (.inl hnull) hsucc (.inr rfl)
      · exact .passing i c _ hmi (Nat.lt_succ_self i) htests (.inr hbypass) hsucc (.inl rfl)
      · exact .going i c _ hmi (Nat.lt_succ_self i) htests (by simp [PassesBy, hnull, hbypass])
          hsucc (.inl rfl)
  | bypass =>
      cases h with
      | passing k c p hk hki htests hpasses hnone =>
          exact .passing k c _ hk (hki.trans (Nat.lt_succ_self i)) htests hpasses
            (none_succ hnone hi) (.inr rfl)
      | going | done => simp_all
  | guard c =>
      cases h with
      | going k c' p hk hki htests hpasses hnone hat =>
          have hcc : c = c' := by simpa using hat
          exact .going k c' _ hk (hki.trans (Nat.lt_succ_self i)) htests hpasses
            (none_succ hnone hi) (.inr (.inl (hcc ▸ rfl)))
      | passing | done => simp_all
  | lock c =>
      cases h with
      | going k c' p hk hki htests hpasses hnone hat =>
          have hcc : c = c' := by simpa using hat
          exact .going k c' _ hk (hki.trans (Nat.lt_succ_self i)) htests hpasses
            (none_succ hnone hi) (.inr (.inr (hcc ▸ rfl)))
      | passing | done => simp_all
  | real call calls crashes =>
      cases h with
      | done k c p hk hki htests hpasses honce =>
          exact .done k c _ hk (hki.trans (Nat.lt_succ_self i)) htests hpasses (honce.succ hi)
            (.inl ⟨calls, crashes, rfl⟩)
      | passing | going => simp_all
  | unlock =>
      cases h with
      | done k c p hk hki htests hpasses honce =>
          exact .done k c _ hk (hki.trans (Nat.lt_succ_self i)) htests hpasses (honce.succ hi)
            (.inr (.inl rfl))
      | passing | going => simp_all
  | leave =>
      cases h with
      | done k c p hk hki htests hpasses honce =>
          exact .done k c _ hk (hki.trans (Nat.lt_succ_self i)) htests hpasses (honce.succ hi)
            (.inr (.inr rfl))
      | passing | going => simp_all

/-- The progress of a call that completes its section. -/
theorem Progress.completes {calls : List RealCall} {crashes : Bool}
    (h : Progress x t asked site m i (.locked c))
    (hop : Operates x t m i (.call c r site (asked.wrapped env))) :
    Progress x t asked site m (i + 1) (.acting calls crashes) := by
  generalize hp : Point.locked c = p at h
  cases h with
  | going k c' p hk hki htests hpasses hnone hat =>
      have hcc : c = c' := by simpa [← hp] using hat
      refine .done k c' _ hk (hki.trans (Nat.lt_succ_self i)) htests hpasses ?_
        (.inl ⟨calls, crashes, rfl⟩)
      refine ⟨i, r, hki, Nat.lt_succ_self i, hcc ▸ hop, fun j o hmj hj ho => ?_⟩
      cases Nat.lt_succ_iff_lt_or_eq.mp hj with
      | inl hlt => exact absurd ho (hnone j o hmj hlt)
      | inr heq => exact heq
  | entered => cases hp
  | passing k c' p hk hki htests hpasses hnone hat => simp [← hp] at hat
  | done k c' p hk hki htests hpasses honce hat => simp [← hp] at hat

/-- Until it returns, the call is on the stack of its thread, under what it called. -/
theorem progress_at (h : CallReturns x t asked site m n) : ∀ i, m < i → i ≤ n →
    ∃ above f, (x.state i).stack t = above ++ .wrapped f :: (x.state m).stack t ∧
      f.asked = asked ∧ f.site = site ∧ Progress x t asked site m i f.point := by
  intro i hmi
  induction i, hmi using Nat.le_induction with
  | base =>
      intro hn
      obtain ⟨v, p, hstep, hstack⟩ :=
        own_step x (hn.trans_lt h.ends |> Nat.lt_of_succ_lt) h.thread
      rw [h.starts] at hstep
      generalize completedAt x m = done at hstep
      cases hstep with
      | outside v hout hnext hcalls =>
          cases hcalls with
          | call asked site =>
              refine ⟨[], _, hstack, rfl, rfl, .entered fun j o hmj hj => ?_⟩
              exact absurd hmj (Nat.not_lt.mpr (Nat.le_of_lt_succ hj))
          | idle a hidle =>
              have hlt := h.within (m + 1) (Nat.lt_succ_self m) hn
              simp [hstack, Threads.thread] at hlt
      | begins o hin | accesses o o' program hin | completes o o' result hin =>
          obtain ⟨-, -, -, -, hadvances⟩ := operation_spec hin
          cases hadvances
  | succ i hmi ih =>
      intro hin
      obtain ⟨above, f, hs, hasked, hsite, hprogress⟩ := ih (Nat.le_of_succ_le hin)
      have hi : i < x.length := (Nat.lt_of_succ_le hin).trans h.ends
      by_cases hut : (x.event i).thread = t
      · obtain ⟨v, p, hstep, hstack⟩ := own_step x hi hut
        have hconsistent := consistent_at x i hi.le
        cases hstep.frameStep (hconsistent.threads t) (hconsistent.does t) hs with
        | stays above' hs' hnot =>
            refine ⟨above', f, hstack.trans hs', hasked, hsite, hprogress.succ fun o ho => ?_⟩
            cases hnot with
            | inl hne =>
                have hlength := ho.2.1
                have hpos := List.length_pos_iff.mpr hne
                rw [hs, List.length_append, List.length_cons] at hlength
                omega
            | inr hnone => exact not_operates hnone o ho
        | goes r above' f' hempty ha hs' hasked' hsite' hgoes hnone =>
            subst hempty
            refine ⟨above', f', hstack.trans hs', hasked'.trans hasked, hsite'.trans hsite, ?_⟩
            exact hprogress.goes hmi hut ha hs (hasked ▸ hgoes) (not_operates hnone)
        | completes c r result f' calls crashes hempty hp hs' hasked' hsite' hacting hdone =>
            subst hempty
            refine ⟨[], f', hstack.trans hs', hasked'.trans hasked, hsite'.trans hsite, ?_⟩
            rw [hacting]
            rw [hasked, hsite] at hdone
            rw [hp] at hprogress
            exact hprogress.completes ⟨hut, by rw [hs]; rfl, result, hdone⟩
        | returns hempty hp hs' =>
            have hlt := h.within (i + 1) (Nat.lt_succ_of_lt hmi) hin
            rw [hstack, hs'] at hlt
            exact absurd hlt (Nat.lt_irrefl _)
      · refine ⟨above, f, (stack_other x hi hut).trans hs, hasked, hsite, ?_⟩
        exact hprogress.succ fun o ho => hut ho.1

/-- A call that returns has made its tests, and after them one operation unless it had
nothing to do with the table. -/
theorem operates_once (h : CallReturns x t asked site m n) :
    ∃ k c, m < k ∧ k < n ∧ Tests x t m k c ∧
      (PassesBy env asked c ∧ (∀ j o, m < j → j < n → ¬ Operates x t m j o) ∨
        ¬ PassesBy env asked c ∧ OperatedOnce x t asked site m k n c) := by
  obtain ⟨above, f, hs, hasked, hsite, hprogress⟩ := progress_at h n h.after le_rfl
  have hshort := h.returns
  have hut : (x.event n).thread = t := by
    by_contra hne
    rw [stack_other x h.ends hne, hs] at hshort
    simp at hshort
    omega
  obtain ⟨v, p, hstep, hstack⟩ := own_step x h.ends hut
  have hconsistent := consistent_at x n h.ends.le
  rw [hstack] at hshort
  cases hstep.frameStep (hconsistent.threads t) (hconsistent.does t) hs with
  | stays above' hs' | goes r above' f' hempty ha hs' =>
      rw [hs', List.length_append, List.length_cons] at hshort
      omega
  | completes c r result f' calls crashes hempty hp hs' =>
      rw [hs', List.length_cons] at hshort
      omega
  | returns hempty hp hs' =>
      rw [hp] at hprogress
      cases hprogress with
      | passing k c p hk hkn htests hpasses hnone =>
          exact ⟨k, c, hk, hkn, htests, .inl ⟨hpasses, hnone⟩⟩
      | going k c p hk hkn htests hpasses hnone hat => simp at hat
      | done k c p hk hkn htests hpasses honce =>
          exact ⟨k, c, hk, hkn, htests, .inr ⟨hpasses, honce⟩⟩

end

/-- While no section is open the table is what the operations that were completed give
one after another. They were completed in the order in which their threads took the
lock, each with the answer it has in that sequence. A call that returns has done one of
them in between, as the caller that its tests found, or none if these let it pass by
the table. -/
theorem linearizable {T : Type*} [DecidableEq T] (x : Execution (Initial (T := T)) (Step env)) :
    (∀ n ≤ x.length, (∀ t, (x.state n).remaining t = none) →
      (x.state n).table = sequential x n) ∧
    (∀ i < x.length, ∀ o result, completedAt x i = some (o, result) →
      result = (o.apply env (sequential x i)).2 ∧
      ∃ l, HeldSince x (x.event i).thread l i ∧ ∀ j l', j < i → completedAt x j ≠ none →
        HeldSince x (x.event j).thread l' j → l' < l) ∧
    ∀ t asked site m n, CallReturns x t asked site m n →
      ∃ k c, m < k ∧ k < n ∧ Tests x t m k c ∧
        (PassesBy env asked c ∧ (∀ j o, m < j → j < n → ¬ Operates x t m j o) ∨
          ¬ PassesBy env asked c ∧ OperatedOnce x t asked site m k n c) := by
  refine ⟨fun n hn => (sectionsAt x n hn).idle, fun i hi o result h => ?_, ?_⟩
  · obtain ⟨hresult, l, hl⟩ := section_of_completedAt hi h
    exact ⟨hresult, l, hl, fun j l' hji hj hl' => hl'.lt hl hji hj⟩
  · exact fun _ _ _ _ _ => operates_once

def idleSections : LockedSections Bool := ⟨idleThreads, fun _ => none⟩

/-- One thread comes to the lock while the other one is in the middle of its section. -/
def mixedEvents : List (Event Bool) :=
  [⟨false, .call (.malloc 8) ⟨0, 0⟩, []⟩, ⟨true, .call (.malloc 16) ⟨0, 0⟩, []⟩] ++
    List.replicate 3 ⟨false, .advance {}, []⟩ ++ [⟨false, .advance { answer := 4096 }, []⟩] ++
    List.replicate 3 ⟨false, .advance {}, []⟩ ++ List.replicate 2 ⟨true, .advance {}, []⟩ ++
    List.replicate 7 ⟨false, .advance {}, []⟩ ++
    [⟨true, .advance {}, []⟩, ⟨true, .advance { answer := 8192 }, []⟩] ++
    List.replicate 2 ⟨false, .advance {}, []⟩ ++ List.replicate 6 ⟨true, .advance {}, []⟩

def mixedRun : Execution (Initial (T := Bool)) (Step .default) :=
  Execution.ofEvents mixedEvents ⟨false, .spawn, []⟩ (s := idleSections)
    ⟨initial_idleThreads, fun _ => rfl⟩ (by decide +kernel)

theorem callReturns_mixedRun : CallReturns mixedRun false (.malloc 8) ⟨0, 0⟩ 0 21 where
  thread := rfl
  starts := rfl
  after := by decide
  within := by
    have hwithin : ∀ i ≤ 21, 0 < i →
        ((mixedRun.state 0).stack false).length <
          ((mixedRun.state i).stack false).length := by decide +kernel
    exact fun i hi hin => hwithin i hin hi
  returns := by decide +kernel
  ends := by decide

theorem linearizable_mixedRun :
    (mixedRun.state 28).table = sequential mixedRun 28 ∧
    (∃ l, HeldSince mixedRun true l 27 ∧ ∀ j l', j < 27 → completedAt mixedRun j ≠ none →
      HeldSince mixedRun (mixedRun.event j).thread l' j → l' < l) ∧
    ∃ k c, 0 < k ∧ k < 21 ∧ Tests mixedRun false 0 k c ∧
      (PassesBy .default (.malloc 8) c ∧
          (∀ j o, 0 < j → j < 21 → ¬ Operates mixedRun false 0 j o) ∨
        ¬ PassesBy .default (.malloc 8) c ∧
          OperatedOnce mixedRun false (.malloc 8) ⟨0, 0⟩ 0 k 21 c) := by
  have hsection : completedAt mixedRun 27 = some
      (.call ⟨.watching, false, 0, 0, ⟨[]⟩⟩ { answer := 8192 } ⟨0, 0⟩
        ((AllocatorCall.malloc 16).wrapped .default), .calls [.preferred] false) := by
    decide +kernel
  have hall := linearizable mixedRun
  exact ⟨hall.1 28 (by decide) (by decide +kernel), (hall.2.1 27 (by decide) _ _ hsection).2,
    hall.2.2 false _ _ 0 21 callReturns_mixedRun⟩

end AllocCounter.LockedSections
