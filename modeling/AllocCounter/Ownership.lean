import AllocCounter.MallocWrappers

/-!
# Who owns the live blocks

The blocks live in the real allocator are the blocks that the callers hold, as
long as no closely watched block is replaced: `instrumentedReallocate` copies
such a block to a new one and never gives the old one back, so from then on it
is live and nobody holds it.
-/
namespace AllocCounter.System

open AllocationTable

variable {env : Environment} {s s' : System}

/-- The live blocks are the held blocks. -/
def Balanced (s : System) : Prop := ∀ a, s.heap a = none ↔ s.held a = none

/-- The event replaces the block of a closely watched allocation. -/
def ReplacesBlock (env : Environment) (s : System) : Event → Prop
  | .reallocate c oldMemory newRequestedSize _ _ => s.Replaces env c oldMemory newRequestedSize
  | .setWatchState _ | .allocate _ _ _ _ | .free _ _ _ _ _ | .patrol _ _ _ => False

instance (s : System) : (e : Event) → Decidable (s.ReplacesBlock env e)
  | .reallocate c oldMemory newRequestedSize _ _ =>
      inferInstanceAs (Decidable (s.Replaces env c oldMemory newRequestedSize))
  | .setWatchState _ | .allocate _ _ _ _ | .free _ _ _ _ _ | .patrol _ _ _ =>
      inferInstanceAs (Decidable False)

theorem obtain_eq_none_iff {α β : Type} {memory : Address} {b : α} {c : β} {h : Blocks α}
    {k : Blocks β} (hiff : ∀ a, h a = none ↔ k a = none) (a : Address) :
    Blocks.obtain memory b h a = none ↔ Blocks.obtain memory c k a = none := by
  by_cases hnull : memory = 0
  · rw [hnull, Blocks.obtain_null, Blocks.obtain_null]
    exact hiff a
  · rw [Blocks.obtain_apply hnull, Blocks.obtain_apply hnull]
    split_ifs
    · simp
    · exact hiff a

theorem release_eq_none_iff {α β : Type} {h : Blocks α} {k : Blocks β}
    (hiff : ∀ a, h a = none ↔ k a = none) (memory a : Address) :
    Blocks.release memory h a = none ↔ Blocks.release memory k a = none := by
  rw [Blocks.release_apply, Blocks.release_apply]
  split_ifs
  · simp
  · exact hiff a

theorem giveBack_eq_none_iff {α β : Type} {memory answer : Address} {b : α} {c : β}
    {h : Blocks α} {k : Blocks β} (hiff : ∀ a, h a = none ↔ k a = none) (released : Bool)
    (a : Address) : Blocks.giveBack memory released answer b h a = none ↔
      Blocks.giveBack memory released answer c k a = none := by
  unfold Blocks.giveBack
  split_ifs
  · exact obtain_eq_none_iff (release_eq_none_iff hiff memory) a
  · exact hiff a

/-- Every step that replaces no closely watched block keeps the balance. -/
theorem Balanced.step (h : s.Balanced) {e : Event} (hkeeps : ¬ s.ReplacesBlock env e)
    (hstep : s.Step env e s') : s'.Balanced := by
  cases e with
  | setWatchState w =>
      have hs' := (Option.some.inj hstep.2).symm
      subst hs'
      exact h
  | allocate c r answer capacity =>
      obtain ⟨-, -, effects, t', -, rfl⟩ := step_allocate hstep
      exact obtain_eq_none_iff h
  | reallocate c oldMemory newRequestedSize answer capacity =>
      obtain ⟨-, -, b, o, hb, -, hcase, rfl⟩ := step_reallocate hstep
      intro a
      cases hcase with
      | untracked | light =>
          simp only [List.foldl_cons, List.foldl_nil, Effect.onHeap, reallocated]
          split_ifs
          · exact h a
          · exact obtain_eq_none_iff (release_eq_none_iff h oldMemory) a
      | replaced t' call alloc hcall hfinds hpages =>
          exact absurd ⟨alloc, hfinds, hpages⟩ hkeeps
      | kept t' alloc hfinds hpages =>
          dsimp only
          rw [List.foldl_nil, h a]
          split_ifs with hnull
          · rfl
          · rw [Blocks.move_apply hnull]
            split_ifs with hold
            · simp [hold, hb]
            · rfl
  | free c memory released answer capacity =>
      obtain ⟨-, -, -, effects, t', -, rfl⟩ := step_free hstep
      intro a
      dsimp only
      split_ifs
      · exact h a
      · exact giveBack_eq_none_iff h released a
  | patrol time lightOrder watchedOrder =>
      obtain ⟨-, -, rfl⟩ := step_patrol hstep
      exact h

/-- A light allocation outlives its time, and a closely watched one of 8 bytes
that follows from the same stack is reallocated. -/
def reallocEvents (newSize : UInt64) : List AppEvent :=
  [.setWatchState .watching,
    .call (callerAt 0) ⟨0, 0⟩ (.malloc 8) 0x1000 8,
    .patrol 31 [0x1000] [],
    .call (callerAt 40) ⟨0, 0⟩ (.malloc 8) 0x2000 4096,
    .call (callerAt 41) ⟨0, 0⟩ (.realloc 0x2000 newSize)
      (if newSize ≤ 4096 then 0x2000 else 0x3000) 8192]

/-- The new size fits in the page. -/
def keptRun : Execution Initial (AppStep .default) :=
  Execution.ofEvents (reallocEvents 100) (.setWatchState .watching) initial_start
    (by decide +kernel)

end AllocCounter.System
