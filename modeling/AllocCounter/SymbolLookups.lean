import AllocCounter.LabelledExecution
import Mathlib.Data.List.Basic
import Mathlib.Logic.Function.Basic

/-!
# Looking up the real functions

Every wrapper of `wrapper-malloc.cpp` asks `dlsym` for the function it wraps when it
is first called. `dlsym` itself calls `calloc`, whose wrapper therefore answers `NULL`
while it is being looked up. The threads share the pointers and the flag of that
wrapper, and what runs inside a look-up, or inside a wrapped function that goes on,
may call any wrapper.
-/
namespace AllocCounter

inductive AllocatorName where
  | malloc | calloc | posix_memalign | aligned_alloc | valloc | memalign | pvalloc | free
  | realloc | reallocarray
deriving DecidableEq, Repr

/-- The points of a wrapper: the test of its pointer, the test and the setting of
`alreadyInDlsymCall`, the call of `dlsym`, and the rest. -/
inductive LookupPoint where
  | entered | guarding | marking | lookingUp | running
deriving DecidableEq, Repr

structure LookupFrame where
  function : AllocatorName
  point : LookupPoint
deriving DecidableEq, Repr

/-- `real` says which pointers are set. The calls of a thread are listed innermost
first. -/
structure Lookups (T : Type*) where
  real : AllocatorName → Bool
  alreadyInDlsymCall : Bool
  stack : T → List LookupFrame

inductive LookupEvent (T : Type*) where
  | call (t : T) (function : AllocatorName)
  | advance (t : T)
deriving DecidableEq

namespace Lookups

/-- The thread is outside any wrapper, or where it is other code is running. -/
def Ready : List LookupFrame → Prop
  | [] => True
  | f :: _ => f.point = .lookingUp ∨ f.point = .running

instance : (stack : List LookupFrame) → Decidable (Ready stack)
  | [] => inferInstanceAs (Decidable True)
  | _ :: _ => inferInstanceAs (Decidable (_ ∨ _))

/-- The functions that a thread is looking up. -/
def lookups : List LookupFrame → List AllocatorName
  | [] => []
  | f :: below => if f.point = .lookingUp then f.function :: lookups below else lookups below

variable {T : Type*} [DecidableEq T]

def goto (s : Lookups T) (t : T) (stack : List LookupFrame) : Lookups T :=
  { s with stack := Function.update s.stack t stack }

/-- The next step of the wrapper on top. `dlsym` finds the function. -/
def advance (s : Lookups T) (t : T) (function : AllocatorName) (below : List LookupFrame) :
    LookupPoint → Lookups T
  | .entered =>
      s.goto t (⟨function,
        if s.real function then .running
        else if function = .calloc then .guarding
        else .lookingUp⟩ :: below)
  | .guarding =>
      -- `return nullptr`
      if s.alreadyInDlsymCall then s.goto t below else s.goto t (⟨function, .marking⟩ :: below)
  | .marking => { s.goto t (⟨function, .lookingUp⟩ :: below) with alreadyInDlsymCall := true }
  | .lookingUp =>
      { s.goto t (⟨function, .running⟩ :: below) with real := Function.update s.real function true }
  | .running => s.goto t below

def next (s : Lookups T) : LookupEvent T → Option (Lookups T)
  | .call t function => some (s.goto t (⟨function, .entered⟩ :: s.stack t))
  | .advance t =>
      match s.stack t with
      | [] => none
      | f :: below => some (s.advance t f.function below f.point)

def Initial (s : Lookups T) : Prop :=
  (∀ function, s.real function = false) ∧ s.alreadyInDlsymCall = false ∧ ∀ t, s.stack t = []

/-- Wrappers are called where other code is running. -/
def Allowed (s : Lookups T) : LookupEvent T → Prop
  | .call t _ => Ready (s.stack t)
  | .advance _ => True

instance (s : Lookups T) : (e : LookupEvent T) → Decidable (s.Allowed e)
  | .call _ _ => inferInstanceAs (Decidable (Ready _))
  | .advance _ => inferInstanceAs (Decidable True)

def Step (s : Lookups T) (e : LookupEvent T) (s' : Lookups T) : Prop :=
  s.Allowed e ∧ s.next e = some s'

variable {s s' : Lookups T} {t u : T} {e : LookupEvent T} {f g : LookupFrame}
  {below stack : List LookupFrame} {function : AllocatorName}

theorem lookups_cons (h : f.point ≠ .lookingUp) : lookups (f :: below) = lookups below := if_neg h

theorem lookups_cons_lookingUp :
    lookups (⟨function, .lookingUp⟩ :: below) = function :: lookups below := rfl

/-- What a step does. -/
inductive StepCase (s : Lookups T) : LookupEvent T → Lookups T → Prop
  | call (t : T) (function : AllocatorName) (hready : Ready (s.stack t)) :
      StepCase s (.call t function) (s.goto t (⟨function, .entered⟩ :: s.stack t))
  | finds (t : T) (function : AllocatorName) (below : List LookupFrame)
      (hs : s.stack t = ⟨function, .entered⟩ :: below) (hreal : s.real function = true) :
      StepCase s (.advance t) (s.goto t (⟨function, .running⟩ :: below))
  | guards (t : T) (below : List LookupFrame) (hs : s.stack t = ⟨.calloc, .entered⟩ :: below)
      (hreal : s.real .calloc = false) :
      StepCase s (.advance t) (s.goto t (⟨.calloc, .guarding⟩ :: below))
  | looksUp (t : T) (function : AllocatorName) (below : List LookupFrame)
      (hs : s.stack t = ⟨function, .entered⟩ :: below) (hother : function ≠ .calloc) :
      StepCase s (.advance t) (s.goto t (⟨function, .lookingUp⟩ :: below))
  | refuses (t : T) (function : AllocatorName) (below : List LookupFrame)
      (hs : s.stack t = ⟨function, .guarding⟩ :: below) (hset : s.alreadyInDlsymCall = true) :
      StepCase s (.advance t) (s.goto t below)
  | passes (t : T) (function : AllocatorName) (below : List LookupFrame)
      (hs : s.stack t = ⟨function, .guarding⟩ :: below) (hunset : s.alreadyInDlsymCall = false) :
      StepCase s (.advance t) (s.goto t (⟨function, .marking⟩ :: below))
  | marks (t : T) (function : AllocatorName) (below : List LookupFrame)
      (hs : s.stack t = ⟨function, .marking⟩ :: below) :
      StepCase s (.advance t)
        { s.goto t (⟨function, .lookingUp⟩ :: below) with alreadyInDlsymCall := true }
  | found (t : T) (function : AllocatorName) (below : List LookupFrame)
      (hs : s.stack t = ⟨function, .lookingUp⟩ :: below) :
      StepCase s (.advance t)
        { s.goto t (⟨function, .running⟩ :: below) with
          real := Function.update s.real function true }
  | returns (t : T) (function : AllocatorName) (below : List LookupFrame)
      (hs : s.stack t = ⟨function, .running⟩ :: below) : StepCase s (.advance t) (s.goto t below)

theorem Step.cases (h : s.Step e s') : StepCase s e s' := by
  obtain ⟨hallowed, hnext⟩ := h
  cases e with
  | call t function =>
      exact Option.some.inj hnext ▸ .call t function hallowed
  | advance t =>
      cases hs : s.stack t with
      | nil => simp [next, hs] at hnext
      | cons f below =>
          obtain ⟨function, point⟩ := f
          simp only [next, hs, Option.some.injEq] at hnext
          rw [← hnext]
          cases point with
          | entered =>
              simp only [advance]
              split_ifs with hreal hcalloc
              · exact .finds t function below hs hreal
              · subst hcalloc
                exact .guards t below hs (Bool.eq_false_iff.mpr hreal)
              · exact .looksUp t function below hs hcalloc
          | guarding =>
              simp only [advance]
              split_ifs with hset
              · exact .refuses t function below hs hset
              · exact .passes t function below hs (Bool.eq_false_iff.mpr hset)
          | marking => exact .marks t function below hs
          | lookingUp => exact .found t function below hs
          | running => exact .returns t function below hs

/-- A step is of one thread. -/
def LookupEvent.thread : LookupEvent T → T
  | .call t _ | .advance t => t

theorem StepCase.stack_of_ne (h : StepCase s e s') (hne : u ≠ LookupEvent.thread e) :
    s'.stack u = s.stack u := by
  cases h <;> exact Function.update_of_ne hne _ _

theorem StepCase.flag_mono (h : StepCase s e s') (hset : s.alreadyInDlsymCall = true) :
    s'.alreadyInDlsymCall = true := by
  cases h with
  | marks => rfl
  | _ => exact hset

theorem StepCase.real_mono (h : StepCase s e s') (hset : s.real function = true) :
    s'.real function = true := by
  cases h with
  | found t function' =>
      by_cases heq : function = function'
      · simp [heq]
      · simp [Function.update_of_ne heq, hset]
  | _ => exact hset

/-- What the wrapper on top knows of those it was called from. -/
def TopFits (f : LookupFrame) (below : List LookupFrame) : Prop :=
  match f.point with
  | .guarding => f.function = .calloc
  | .marking => f.function = .calloc ∧ .calloc ∉ lookups below
  | .entered | .lookingUp | .running => True

structure Sound (flag : Bool) (stack : List LookupFrame) : Prop where
  count : (lookups stack).count .calloc ≤ 1
  flag : .calloc ∈ lookups stack → flag = true
  top : ∀ f below, stack = f :: below → TopFits f below
  inside : ∀ f below, stack = f :: below → ∀ g ∈ below, g.point = .lookingUp ∨ g.point = .running

variable {flag flag' : Bool}

theorem Sound.mono (h : Sound flag stack) (hflag : flag = true → flag' = true) :
    Sound flag' stack :=
  ⟨h.count, fun hmem => hflag (h.flag hmem), h.top, h.inside⟩

/-- What stands below a wrapper stays as it is. -/
theorem Sound.rest (h : Sound flag (f :: below)) :
    (lookups below).count .calloc ≤ 1 ∧ (.calloc ∈ lookups below → flag = true) := by
  obtain ⟨hcount, hflag, -, -⟩ := h
  rw [lookups] at hcount hflag
  split_ifs at hcount hflag
  · exact ⟨List.count_le_count_cons.trans hcount, fun hmem => hflag (List.mem_cons_of_mem _ hmem)⟩
  · exact ⟨hcount, hflag⟩

theorem Sound.inside_rest (h : Sound flag (f :: below)) :
    ∀ g ∈ below, g.point = .lookingUp ∨ g.point = .running := h.inside f below rfl

theorem Sound.rest_ne (h : Sound flag (f :: stack))
    (hg : ¬ (g.point = .lookingUp ∨ g.point = .running)) : stack ≠ g :: below :=
  fun heq => hg (h.inside_rest g (heq ▸ List.mem_cons_self))

/-- The wrapper on top goes on, to a point where it looks nothing up. -/
theorem Sound.goto (h : Sound flag (f :: below)) (g : LookupFrame) (hp : g.point ≠ .lookingUp)
    (htop : TopFits g below) : Sound flag (g :: below) where
  count := by rw [lookups_cons hp]; exact h.rest.1
  flag := by rw [lookups_cons hp]; exact h.rest.2
  top g' below' heq := by
    obtain ⟨rfl, rfl⟩ := List.cons.inj heq
    exact htop
  inside g' below' heq := by
    obtain ⟨rfl, rfl⟩ := List.cons.inj heq
    exact h.inside_rest

/-- The wrapper on top begins to look its function up. -/
theorem Sound.lookUp (h : Sound flag (f :: below))
    (hnew : function = .calloc → .calloc ∉ lookups below ∧ flag = true) :
    Sound flag (⟨function, .lookingUp⟩ :: below) where
  count := by
    rw [lookups_cons_lookingUp, List.count_cons]
    split_ifs with heq
    · rw [List.count_eq_zero.mpr (hnew (beq_iff_eq.mp heq)).1]
    · exact h.rest.1
  flag hmem := by
    rw [lookups_cons_lookingUp] at hmem
    cases List.mem_cons.mp hmem with
    | inl heq => exact (hnew heq.symm).2
    | inr hmem => exact h.rest.2 hmem
  top g' below' heq := by
    obtain ⟨rfl, rfl⟩ := List.cons.inj heq
    exact trivial
  inside g' below' heq := by
    obtain ⟨rfl, rfl⟩ := List.cons.inj heq
    exact h.inside_rest

/-- A wrapper returns. -/
theorem Sound.pop (h : Sound flag (f :: below)) : Sound flag below where
  count := h.rest.1
  flag := h.rest.2
  top g below' heq := by
    cases h.inside_rest g (heq ▸ List.mem_cons_self) with
    | inl hp => simp [TopFits, hp]
    | inr hp => simp [TopFits, hp]
  inside g below' heq g' hg' := h.inside_rest g' (heq ▸ List.mem_cons_of_mem _ hg')

/-- A wrapper is called. -/
theorem Sound.push (h : Sound flag stack) (hready : Ready stack) :
    Sound flag (⟨function, .entered⟩ :: stack) where
  count := h.count
  flag := h.flag
  top g below heq := by
    obtain ⟨rfl, rfl⟩ := List.cons.inj heq
    exact trivial
  inside g below heq g' hg' := by
    obtain ⟨rfl, rfl⟩ := List.cons.inj heq
    cases hs : stack with
    | nil => simp [hs] at hg'
    | cons f rest =>
        rw [hs] at hg' hready
        cases List.mem_cons.mp hg' with
        | inl heq => exact heq ▸ hready
        | inr hmem => exact h.inside f rest hs g' hmem

theorem Sound.own (h : Sound s.alreadyInDlsymCall (s.stack (LookupEvent.thread e)))
    (hstep : StepCase s e s') :
    Sound s'.alreadyInDlsymCall (s'.stack (LookupEvent.thread e)) := by
  have hfrom : ∀ {f below}, s.stack (LookupEvent.thread e) = f :: below →
      Sound s.alreadyInDlsymCall (f :: below) := fun hs => hs ▸ h
  have hto : ∀ {stack}, Sound s'.alreadyInDlsymCall stack →
      s'.stack (LookupEvent.thread e) = stack →
      Sound s'.alreadyInDlsymCall (s'.stack (LookupEvent.thread e)) := fun h hs => hs ▸ h
  cases hstep with
  | call t function hready => exact hto (Sound.push h hready) (Function.update_self t _ _)
  | finds t function below hs | found t function below hs =>
      exact hto ((hfrom hs).goto ⟨function, .running⟩ nofun trivial) (Function.update_self t _ _)
  | guards t below hs =>
      exact hto ((hfrom hs).goto ⟨.calloc, .guarding⟩ nofun rfl) (Function.update_self t _ _)
  | looksUp t function below hs hother =>
      exact hto ((hfrom hs).lookUp fun heq => absurd heq hother) (Function.update_self t _ _)
  | refuses t function below hs | returns t function below hs =>
      exact hto (hfrom hs).pop (Function.update_self t _ _)
  | passes t function below hs hunset =>
      have hcalloc : function = .calloc := (hfrom hs).top _ below rfl
      have hfree : .calloc ∉ lookups below := fun hmem =>
        Bool.eq_false_iff.mp hunset ((hfrom hs).rest.2 hmem)
      exact hto ((hfrom hs).goto ⟨function, .marking⟩ nofun ⟨hcalloc, hfree⟩)
        (Function.update_self t _ _)
  | marks t function below hs =>
      have hfits : function = .calloc ∧ AllocatorName.calloc ∉ lookups below :=
        (hfrom hs).top _ below rfl
      exact hto (((hfrom hs).mono fun _ => rfl).lookUp fun _ => ⟨hfits.2, rfl⟩)
        (Function.update_self t _ _)

theorem Sound.step (h : ∀ t, Sound s.alreadyInDlsymCall (s.stack t)) (hstep : StepCase s e s')
    (t : T) : Sound s'.alreadyInDlsymCall (s'.stack t) := by
  by_cases hne : t = LookupEvent.thread e
  · exact hne ▸ Sound.own (h _) hstep
  · rw [hstep.stack_of_ne hne]
    exact (h t).mono hstep.flag_mono

variable (x : Execution Initial (Step (T := T)))

theorem sound_at : ∀ n ≤ x.length, ∀ t,
    Sound (x.state n).alreadyInDlsymCall ((x.state n).stack t) :=
  x.invariant (I := fun s => ∀ t, Sound s.alreadyInDlsymCall (s.stack t))
    (C := fun _ _ => True)
    (fun s hinit t => by
      rw [hinit.2.2 t]
      exact ⟨Nat.zero_le 1, nofun, nofun, nofun⟩)
    (fun _ _ _ h _ hstep => Sound.step h hstep.cases) fun _ _ => trivial

/-- The thread sets the flag. -/
def Marks (s : Lookups T) (e : LookupEvent T) (t : T) : Prop :=
  e = .advance t ∧ ∃ function below, s.stack t = ⟨function, .marking⟩ :: below

/-- The thread has begun a look-up of `calloc` before `n`. -/
def HasMarked (t : T) (n : ℕ) : Prop := ∃ m < n, Marks (x.state m) (x.event m) t

/-- A step begins a look-up, ends the innermost one, or leaves them. -/
theorem StepCase.lookups_cases (h : StepCase s e s') :
    lookups (s'.stack (LookupEvent.thread e)) = lookups (s.stack (LookupEvent.thread e)) ∨
    (∃ function, lookups (s'.stack (LookupEvent.thread e)) =
      function :: lookups (s.stack (LookupEvent.thread e))) ∨
    ∃ function, lookups (s.stack (LookupEvent.thread e)) =
      function :: lookups (s'.stack (LookupEvent.thread e)) ∧ s'.real function = true := by
  cases h with
  | call t => exact .inl (by simp [Lookups.goto, LookupEvent.thread, lookups])
  | finds t function below hs | guards t below hs | refuses t function below hs
  | passes t function below hs | returns t function below hs =>
      exact .inl (by simp [Lookups.goto, LookupEvent.thread, lookups, hs])
  | looksUp t function below hs | marks t function below hs =>
      exact .inr (.inl ⟨function, by simp [Lookups.goto, LookupEvent.thread, lookups, hs]⟩)
  | found t function below hs =>
      exact .inr (.inr ⟨function, by simp [Lookups.goto, LookupEvent.thread, lookups, hs]⟩)

theorem StepCase.keeps (h : StepCase s e s') (hmem : function ∈ lookups (s.stack t)) :
    function ∈ lookups (s'.stack t) ∨ s'.real function = true := by
  by_cases hne : t = LookupEvent.thread e
  · subst hne
    rcases h.lookups_cases with heq | ⟨other, heq⟩ | ⟨other, heq, hreal⟩
    · exact .inl (heq ▸ hmem)
    · exact .inl (heq ▸ List.mem_cons_of_mem other hmem)
    · rw [heq] at hmem
      cases List.mem_cons.mp hmem with
      | inl hsame => exact .inr (hsame ▸ hreal)
      | inr hmem => exact .inl hmem
  · exact .inl (h.stack_of_ne hne ▸ hmem)

theorem hasMarked_succ {n : ℕ} :
    HasMarked x t (n + 1) ↔ HasMarked x t n ∨ Marks (x.state n) (x.event n) t := by
  constructor
  · rintro ⟨m, hm, hmarks⟩
    cases Nat.lt_succ_iff_lt_or_eq.mp hm with
    | inl hlt => exact .inl ⟨m, hlt, hmarks⟩
    | inr heq => exact .inr (heq ▸ hmarks)
  · rintro (⟨m, hm, hmarks⟩ | hmarks)
    · exact ⟨m, hm.trans (Nat.lt_succ_self n), hmarks⟩
    · exact ⟨n, Nat.lt_succ_self n, hmarks⟩

/-- A thread that sets the flag goes on to look `calloc` up. -/
theorem Marks.mem_lookups (h : Marks s e t) (hsound : Sound s.alreadyInDlsymCall (s.stack t))
    (hstep : StepCase s e s') : .calloc ∈ lookups (s'.stack t) := by
  obtain ⟨rfl, function, below, hs⟩ := h
  have hfits : function = .calloc ∧ AllocatorName.calloc ∉ lookups below := hsound.top _ below hs
  cases hstep with
  | marks t function' below' hs' =>
      have hsame := (List.cons.inj (hs'.symm.trans hs)).1
      simp [Lookups.goto, lookups, (LookupFrame.mk.inj hsame).1, hfits.1]
  | finds t _ _ hs' | guards t _ hs' | looksUp t _ _ hs' | refuses t _ _ hs' | passes t _ _ hs'
  | found t _ _ hs' | returns t _ _ hs' => simp [hs] at hs'

/-- A thread that has begun a look-up of `calloc` is in it, or the function is known. -/
theorem of_hasMarked : ∀ n ≤ x.length, HasMarked x t n →
    .calloc ∈ lookups ((x.state n).stack t) ∨ (x.state n).real .calloc = true := by
  refine x.holds_at _ (fun ⟨m, hm, _⟩ => absurd hm (Nat.not_lt_zero m)) fun n hn ih hmarked => ?_
  have hcase := (x.steps n hn).cases
  cases (hasMarked_succ x).mp hmarked with
  | inr hmarks => exact .inl (hmarks.mem_lookups (sound_at x n hn.le t) hcase)
  | inl hbefore =>
      cases ih hbefore with
      | inl hmem => exact hcase.keeps hmem
      | inr hreal => exact .inr (hcase.real_mono hreal)

theorem StepCase.flag_iff (h : StepCase s e s') :
    s'.alreadyInDlsymCall = true ↔ s.alreadyInDlsymCall = true ∨ ∃ t, Marks s e t := by
  cases h with
  | marks t function below hs => exact ⟨fun _ => .inr ⟨t, rfl, function, below, hs⟩, fun _ => rfl⟩
  | call t function hready =>
      refine ⟨.inl, fun hor => hor.resolve_right ?_⟩
      rintro ⟨u, hevent, -⟩
      cases hevent
  | finds t _ _ hs | guards t _ hs | looksUp t _ _ hs | refuses t _ _ hs | passes t _ _ hs
  | found t _ _ hs | returns t _ _ hs =>
      refine ⟨.inl, fun hor => hor.resolve_right ?_⟩
      rintro ⟨u, hevent, function, below, hmarking⟩
      rw [← LookupEvent.advance.inj hevent, hs] at hmarking
      cases hmarking

/-- The flag is set when some thread has set it. -/
theorem flag_iff : ∀ n ≤ x.length,
    (x.state n).alreadyInDlsymCall = true ↔ ∃ t, HasMarked x t n := by
  refine x.holds_at _ ?_ fun n hn ih => ?_
  · rw [x.starts.2.1]
    exact ⟨nofun, fun ⟨_, m, hm, _⟩ => absurd hm (Nat.not_lt_zero m)⟩
  · simp only [(x.steps n hn).cases.flag_iff, hasMarked_succ, exists_or, ih]

/-- A thread that comes to the test of the flag has found no real `calloc`. -/
theorem StepCase.guards_of (h : StepCase s e s') (hsound : Sound s.alreadyInDlsymCall (s.stack t))
    (ht : t = LookupEvent.thread e) (hs : s'.stack t = ⟨function, .guarding⟩ :: below) :
    s.real .calloc = false ∧ lookups (s'.stack t) = lookups (s.stack t) ∧ ¬ Marks s e t := by
  subst ht
  have hpop : ∀ {f rest}, s.stack (LookupEvent.thread e) = f :: rest →
      rest ≠ ⟨function, .guarding⟩ :: below :=
    fun hs' => (hs' ▸ hsound).rest_ne (by simp)
  cases h with
  | guards t below' hs' hreal =>
      refine ⟨hreal, by simp [Lookups.goto, LookupEvent.thread, lookups, hs'], ?_⟩
      rintro ⟨-, function, below, hmarking⟩
      rw [LookupEvent.thread, hs'] at hmarking
      cases hmarking
  | refuses t function' below' hs' | returns t function' below' hs' =>
      exact absurd ((Function.update_self t _ _).symm.trans hs) (hpop hs')
  | call t | finds t | looksUp t | passes t | marks t | found t =>
      simp [Lookups.goto, LookupEvent.thread] at hs

/-- A thread that is at the test of the flag, and has set it before, is in its look-up of
`calloc`. -/
theorem guarding_at : ∀ n ≤ x.length, ∀ function below,
    (x.state n).stack t = ⟨function, .guarding⟩ :: below → HasMarked x t n →
      .calloc ∈ lookups ((x.state n).stack t) := by
  refine x.holds_at _ ?_ fun n hn ih => ?_
  · rintro function below - ⟨m, hm, -⟩
    exact absurd hm (Nat.not_lt_zero m)
  · intro function below hs hmarked
    have hcase := (x.steps n hn).cases
    by_cases hne : t = LookupEvent.thread (x.event n)
    · obtain ⟨hreal, hlookups, hnot⟩ := hcase.guards_of (sound_at x n hn.le t) hne hs
      have hbefore := ((hasMarked_succ x).mp hmarked).resolve_right hnot
      rw [hlookups]
      refine (of_hasMarked x n hn.le hbefore).resolve_right fun hset => ?_
      rw [hreal] at hset
      cases hset
    · have hsame := hcase.stack_of_ne hne
      rw [hsame] at hs ⊢
      refine ih function below hs (((hasMarked_succ x).mp hmarked).resolve_right ?_)
      rintro ⟨hevent, -⟩
      exact hne (by rw [hevent]; rfl)

/-- A thread that comes to the setting of the flag has found it unset. -/
theorem StepCase.passes_of (h : StepCase s e s') (hsound : Sound s.alreadyInDlsymCall (s.stack t))
    (ht : t = LookupEvent.thread e) (hs : s'.stack t = ⟨function, .marking⟩ :: below) :
    s.alreadyInDlsymCall = false ∧ ¬ Marks s e t := by
  subst ht
  have hpop : ∀ {f rest}, s.stack (LookupEvent.thread e) = f :: rest →
      rest ≠ ⟨function, .marking⟩ :: below :=
    fun hs' => (hs' ▸ hsound).rest_ne (by simp)
  cases h with
  | passes t function' below' hs' hunset =>
      refine ⟨hunset, ?_⟩
      rintro ⟨-, function, below, hmarking⟩
      rw [LookupEvent.thread, hs'] at hmarking
      cases hmarking
  | refuses t function' below' hs' | returns t function' below' hs' =>
      exact absurd ((Function.update_self t _ _).symm.trans hs) (hpop hs')
  | call t | finds t | looksUp t | guards t | marks t | found t =>
      simp [Lookups.goto, LookupEvent.thread] at hs

/-- A thread that has set the flag does not come to it again. -/
theorem not_marking : ∀ n ≤ x.length, ∀ function below,
    (x.state n).stack t = ⟨function, .marking⟩ :: below → ¬ HasMarked x t n := by
  refine x.holds_at _ ?_ fun n hn ih => ?_
  · rintro function below - ⟨m, hm, -⟩
    exact absurd hm (Nat.not_lt_zero m)
  · intro function below hs hmarked
    have hcase := (x.steps n hn).cases
    by_cases hne : t = LookupEvent.thread (x.event n)
    · obtain ⟨hunset, hnot⟩ := hcase.passes_of (sound_at x n hn.le t) hne hs
      have hbefore := ((hasMarked_succ x).mp hmarked).resolve_right hnot
      have hset := (flag_iff x n hn.le).mpr ⟨t, hbefore⟩
      rw [hunset] at hset
      cases hset
    · rw [hcase.stack_of_ne hne] at hs
      refine ih function below hs (((hasMarked_succ x).mp hmarked).resolve_right ?_)
      rintro ⟨hevent, -⟩
      exact hne (by rw [hevent]; rfl)

/-- Whatever the look-ups call, a thread looks `calloc` up at most once, and never inside
its own look-up of it. -/
theorem calloc_looked_up_once :
    (∀ n ≤ x.length, ∀ t, (lookups ((x.state n).stack t)).count .calloc ≤ 1) ∧
    ∀ t, ∀ m < x.length, ∀ m' < x.length, Marks (x.state m) (x.event m) t →
      Marks (x.state m') (x.event m') t → m = m' := by
  have hlate : ∀ t m m', m' < x.length → Marks (x.state m) (x.event m) t →
      Marks (x.state m') (x.event m') t → ¬ m < m' := by
    intro t m m' hm' hmarks hmarks' hlt
    obtain ⟨-, function, below, hs⟩ := hmarks'
    exact not_marking x m' hm'.le function below hs ⟨m, hlt, hmarks⟩
  refine ⟨fun n hn t => (sound_at x n hn t).count, fun t m hm m' hm' hmarks hmarks' => ?_⟩
  exact Nat.le_antisymm (Nat.not_lt.mp (hlate t m' m hm hmarks' hmarks))
    (Nat.not_lt.mp (hlate t m m' hm' hmarks hmarks'))

/-- A call of `calloc` that has found no real function answers `NULL` when it comes from
the look-up of `calloc` by its own thread, or when another thread has begun one. -/
theorem null_iff {n : ℕ} (hn : n < x.length) (hevent : x.event n = .advance t)
    (hs : (x.state n).stack t = ⟨.calloc, .guarding⟩ :: below) :
    (x.state (n + 1)).stack t = below ↔
      .calloc ∈ lookups ((x.state n).stack t) ∨ ∃ u, u ≠ t ∧ HasMarked x u n := by
  have hset : (x.state n).alreadyInDlsymCall = true ↔
      .calloc ∈ lookups ((x.state n).stack t) ∨ ∃ u, u ≠ t ∧ HasMarked x u n := by
    constructor
    · intro hset
      obtain ⟨u, hmarked⟩ := (flag_iff x n hn.le).mp hset
      by_cases hut : u = t
      · exact .inl (guarding_at x n hn.le _ _ hs (hut ▸ hmarked))
      · exact .inr ⟨u, hut, hmarked⟩
    · rintro (hmem | ⟨u, -, hmarked⟩)
      · exact (sound_at x n hn.le t).flag hmem
      · exact (flag_iff x n hn.le).mpr ⟨u, hmarked⟩
  have hnext := (x.steps n hn).2
  rw [hevent, next, hs] at hnext
  rw [← hset, ← Option.some.inj hnext, advance]
  split_ifs with h <;> simp [Lookups.goto, h]

def noLookups : Lookups Bool := ⟨fun _ => false, false, fun _ => []⟩

/-- The first `malloc`, whose look-up calls `calloc`, whose look-up does so too. -/
def firstMallocEvents : List (LookupEvent Bool) :=
  [.call false .malloc, .advance false, .call false .calloc, .advance false, .advance false,
    .advance false, .call false .calloc, .advance false, .advance false, .advance false,
    .advance false, .advance false, .advance false]

def firstMalloc : Execution (Initial (T := Bool)) Step :=
  Execution.ofEvents firstMallocEvents (.advance false) (s := noLookups)
    ⟨fun _ => rfl, rfl, fun _ => rfl⟩ (by decide +kernel)

theorem calloc_looked_up_once_firstMalloc :
    (lookups ((firstMalloc.state 8).stack false)).count .calloc ≤ 1 ∧
      ∀ m < 13, Marks (firstMalloc.state m) (firstMalloc.event m) false → m = 5 := by
  have honce := calloc_looked_up_once firstMalloc
  refine ⟨honce.1 8 (by decide) false, fun m hm hmarks => ?_⟩
  exact honce.2 false m hm 5 (by decide) hmarks ⟨rfl, .calloc, [⟨.malloc, .lookingUp⟩], rfl⟩

theorem null_iff_firstMalloc :
    (firstMalloc.state 9).stack false = [⟨.calloc, .lookingUp⟩, ⟨.malloc, .lookingUp⟩] ↔
      .calloc ∈ lookups ((firstMalloc.state 8).stack false) ∨
        ∃ u, u ≠ false ∧ HasMarked firstMalloc u 8 :=
  null_iff firstMalloc (by decide) rfl rfl

end Lookups
end AllocCounter
