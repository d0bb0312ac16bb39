import Mathlib.Data.Nat.Notation
import Mathlib.Tactic.TypeStar

/-!
# Programs of single accesses

What a thread does to a shared state, access by access. An access reads the state
and may write it, and what follows depends on what was read. Between two accesses of
one program those of others may come; a program that is left alone gives what `run`
computes. The programs form a monad, so they are written as the source is.
-/
namespace AllocCounter

/-- An access writes first and hands the state that it found to the rest. -/
inductive Program (σ : Type*) (α : Type) where
  | done (a : α)
  | access (write : σ → σ) (rest : σ → Program σ α)

namespace Program

variable {σ : Type*} {α β : Type}

/-- The next access, and what is left after it. -/
def step : Program σ α → σ → σ × Program σ α
  | .done a, s => (s, .done a)
  | .access write rest, s => (write s, rest s)

/-- All accesses, with none of others between them. -/
def run : Program σ α → σ → σ × α
  | .done a, s => (s, a)
  | .access write rest, s => (rest s).run (write s)

def bind : Program σ α → (α → Program σ β) → Program σ β
  | .done a, f => f a
  | .access write rest, f => .access write fun s => (rest s).bind f

instance : Monad (Program σ) where
  pure := .done
  bind := bind

/-- What is read from the state. -/
def load (f : σ → α) : Program σ α := .access id fun s => .done (f s)

def store (f : σ → σ) : Program σ Unit := .access f fun _ => .done ()

/-- A part of the state is read, and then a new value is written. -/
def update (get : σ → β) (set : β → σ → σ) (f : β → β) : Program σ Unit := do
  let b ← load get
  store (set (f b))

theorem run_step (p : Program σ α) (s : σ) : (p.step s).2.run (p.step s).1 = p.run s := by
  cases p <;> rfl

@[simp] theorem run_pure (a : α) (s : σ) : (pure a : Program σ α).run s = (s, a) := rfl

@[simp] theorem run_bind (p : Program σ α) (f : α → Program σ β) (s : σ) :
    (p >>= f).run s = (f (p.run s).2).run (p.run s).1 := by
  induction p generalizing s with
  | done a => rfl
  | access write rest ih => exact ih s (write s)

@[simp] theorem run_load (f : σ → α) (s : σ) : (load f).run s = (s, f s) := rfl

@[simp] theorem run_store (f : σ → σ) (s : σ) : (store f).run s = (f s, ()) := rfl

@[simp] theorem run_update (get : σ → β) (set : β → σ → σ) (f : β → β) (s : σ) :
    (update get set f).run s = (set (f (get s)) s, ()) := rfl

/-- A loop is run visit by visit. -/
theorem run_foldlM {f : β → α → Program σ β} {g : σ × β → α → σ × β}
    (h : ∀ s b a, (f b a).run s = g (s, b) a) (l : List α) (s : σ) (b : β) :
    (l.foldlM f b).run s = l.foldl g (s, b) := by
  induction l generalizing s b with
  | nil => rfl
  | cons a l ih =>
      rw [List.foldlM_cons, run_bind, List.foldl_cons, ih, h]

/-- The accesses of two increments alternate, and one of them is lost. -/
example :
    let increment : Program ℕ Unit := update id (fun n _ => n) (· + 1)
    let (s, first) := increment.step 0
    let (s, second) := increment.step s
    let (s, _) := first.step s
    let (s, _) := second.step s
    s = 1 := rfl

end Program

end AllocCounter
