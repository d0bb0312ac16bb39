import Mathlib.Order.Basic
import Mathlib.Data.Nat.Count

/-!
# Labelled executions

An execution is a finite sequence of states in which consecutive states are
related by a labelled step. States and events are indexed by natural numbers, so
a statement about a history can name the moments it is about. Values past the
length are unconstrained.
-/
namespace AllocCounter

structure Execution {σ ε : Type*} (init : σ → Prop) (step : σ → ε → σ → Prop) where
  length : ℕ
  state : ℕ → σ
  event : ℕ → ε
  starts : init (state 0)
  steps : ∀ i < length, step (state i) (event i) (state (i + 1))

namespace Execution

variable {σ ε : Type*} {init : σ → Prop} {step : σ → ε → σ → Prop}

/-- A property of indices that holds at the start and is kept by every step. -/
theorem holds_at (x : Execution init step) (P : ℕ → Prop) (hinit : P 0)
    (hstep : ∀ i < x.length, P i → P (i + 1)) : ∀ i ≤ x.length, P i := by
  intro i
  induction i with
  | zero => exact fun _ => hinit
  | succ i ih => exact fun hi => hstep i hi (ih (Nat.le_of_succ_le hi))

/-- The invariant rule for executions whose steps all meet a condition. -/
theorem invariant (x : Execution init step) {I : σ → Prop} {C : σ → ε → Prop}
    (hinit : ∀ s, init s → I s) (hstep : ∀ s e s', I s → C s e → step s e s' → I s')
    (hC : ∀ i < x.length, C (x.state i) (x.event i)) : ∀ i ≤ x.length, I (x.state i) :=
  x.holds_at (fun i => I (x.state i)) (hinit _ x.starts) fun i hi h =>
    hstep _ _ _ h (hC i hi) (x.steps i hi)

/-- How many of the first `n` events have a property of the event and the state
it meets. -/
def occurrences (x : Execution init step) (p : σ → ε → Prop) [∀ s e, Decidable (p s e)] (n : ℕ) :
    ℕ :=
  Nat.count (fun i => p (x.state i) (x.event i)) n

theorem occurrences_succ (x : Execution init step) (p : σ → ε → Prop)
    [∀ s e, Decidable (p s e)] (n : ℕ) :
    x.occurrences p (n + 1) =
      x.occurrences p n + if p (x.state n) (x.event n) then 1 else 0 :=
  Nat.count_succ _ _

theorem occurrences_mono (x : Execution init step) (p : σ → ε → Prop)
    [∀ s e, Decidable (p s e)] {m n : ℕ} (h : m ≤ n) : x.occurrences p m ≤ x.occurrences p n :=
  Nat.count_monotone _ h

/-- Some event before `n` has the first property, and none since then the second. -/
def Since (sets clears : ℕ → Prop) (n : ℕ) : Prop :=
  ∃ m < n, sets m ∧ ∀ k, m < k → k < n → ¬ clears k

theorem since_succ_iff {sets clears : ℕ → Prop} {n : ℕ} :
    Since sets clears (n + 1) ↔ sets n ∨ Since sets clears n ∧ ¬ clears n := by
  constructor
  · rintro ⟨m, hm, hsets, hnone⟩
    cases Nat.lt_succ_iff_lt_or_eq.mp hm with
    | inl hlt =>
        exact .inr ⟨⟨m, hlt, hsets, fun k hmk hk => hnone k hmk (hk.trans (Nat.lt_succ_self n))⟩,
          hnone n hlt (Nat.lt_succ_self n)⟩
    | inr heq => exact .inl (heq ▸ hsets)
  · rintro (hsets | ⟨⟨m, hm, hsets, hnone⟩, hnot⟩)
    · exact ⟨n, Nat.lt_succ_self n, hsets, fun k hnk hk => absurd hnk (by omega)⟩
    · refine ⟨m, hm.trans (Nat.lt_succ_self n), hsets, fun k hmk hk => ?_⟩
      cases Nat.lt_succ_iff_lt_or_eq.mp hk with
      | inl hlt => exact hnone k hmk hlt
      | inr heq => exact heq ▸ hnot

/-- A step relation that implies another one turns executions into executions
over the same states. -/
def map {ε' : Type*} {step' : σ → ε' → σ → Prop} (x : Execution init step) (f : ε → ε')
    (h : ∀ s e s', step s e s' → step' s (f e) s') : Execution init step' :=
  ⟨x.length, x.state, fun i => f (x.event i), x.starts, fun i hi => h _ _ _ (x.steps i hi)⟩

section Listed

variable (allowed : σ → ε → Prop) (next : σ → ε → Option σ)

/-- The states that a list of events goes through; the last one stays. -/
def statesOf (s : σ) : List ε → ℕ → σ
  | [], _ => s
  | _ :: _, 0 => s
  | e :: rest, i + 1 => statesOf ((next s e).getD s) rest i

/-- Every event of the list is allowed and can happen where it comes. -/
def Permitted (s : σ) : List ε → Prop
  | [] => True
  | e :: rest => allowed s e ∧ (next s e).isSome ∧ Permitted ((next s e).getD s) rest

instance [∀ s e, Decidable (allowed s e)] (s : σ) :
    (events : List ε) → Decidable (Permitted allowed next s events)
  | [] => inferInstanceAs (Decidable True)
  | e :: rest =>
      have := instDecidablePermitted ((next s e).getD s) rest
      inferInstanceAs (Decidable (_ ∧ _ ∧ _))

variable {allowed next}

theorem Permitted.cons {s s' : σ} {e : ε} {rest : List ε} (hallowed : allowed s e)
    (hnext : next s e = some s') (hrest : Permitted allowed next s' rest) :
    Permitted allowed next s (e :: rest) :=
  ⟨hallowed, by rw [hnext]; rfl, by rwa [hnext]⟩

theorem statesOf_cons {s s' : σ} {e : ε} (hnext : next s e = some s') (rest : List ε) (i : ℕ) :
    statesOf next s (e :: rest) (i + 1) = statesOf next s' rest i := by
  rw [statesOf, hnext]
  rfl

theorem step_statesOf (events : List ε) (last : ε) {s : σ} (h : Permitted allowed next s events) :
    ∀ i < events.length, allowed (statesOf next s events i) (events.getD i last) ∧
      next (statesOf next s events i) (events.getD i last) =
        some (statesOf next s events (i + 1)) := by
  induction events generalizing s with
  | nil => exact fun i hi => absurd hi (Nat.not_lt_zero i)
  | cons e rest ih =>
      obtain ⟨hallowed, hsome, hrest⟩ := h
      intro i hi
      cases i with
      | succ i => exact ih hrest i (Nat.lt_of_succ_lt_succ hi)
      | zero =>
          obtain ⟨s', hs'⟩ := Option.isSome_iff_exists.mp hsome
          refine ⟨hallowed, ?_⟩
          cases rest <;> simp [statesOf, hs']

def ofEvents (events : List ε) (last : ε) {s : σ} (hs : init s)
    (h : Permitted allowed next s events) :
    Execution init (fun s e s' => allowed s e ∧ next s e = some s') :=
  ⟨events.length, statesOf next s events, fun i => events.getD i last, by
    cases events <;> exact hs, step_statesOf events last h⟩

end Listed

end Execution

end AllocCounter
