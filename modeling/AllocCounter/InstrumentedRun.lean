import AllocCounter.TableChanges
import AllocCounter.LabelledExecution

/-!
# Runs of the instrumented calls

The state has the watch word, the table, the blocks live in the real allocator
with their capacities, and the blocks held by the callers. A block that a caller
holds has a number, which it keeps when it is reallocated, the size last asked
for, and whether the library itself holds it. The calls of the library, which go
past the table, are events like those of the application.

An event carries the arguments of a call, the answer of the one real allocator
it may use, the capacity of the block in that answer, and for a call that frees
whether the real function did: `reallocarray` fails where its product overflows,
also when the wrapper takes it for a `free`.
-/
namespace AllocCounter

abbrev Blocks (α : Type) := Address → Option α

namespace Blocks

variable {α : Type}

/-- The block is given out, unless the address is `NULL`. -/
def obtain (memory : Address) (b : α) (h : Blocks α) : Blocks α :=
  if memory = 0 then h else Function.update h memory (some b)

def release (memory : Address) (h : Blocks α) : Blocks α := Function.update h memory none

/-- What a call of the real `free` does: unless it fails, the block is given
back, and a `realloc` to size zero may return a new one. -/
def giveBack (memory : Address) (released : Bool) (answer : Address) (b : α) (h : Blocks α) :
    Blocks α :=
  if released then obtain answer b (release memory h) else h

theorem obtain_null (b : α) (h : Blocks α) : obtain 0 b h = h := if_pos rfl

theorem obtain_apply {memory : Address} (hm : memory ≠ 0) (b : α) (h : Blocks α) (a : Address) :
    obtain memory b h a = if a = memory then some b else h a := by
  rw [obtain, if_neg hm, Function.update_apply]

theorem release_apply (memory : Address) (h : Blocks α) (a : Address) :
    release memory h a = if a = memory then none else h a :=
  Function.update_apply _ _ _ _

theorem obtain_of_ne {memory a : Address} (b : α) (h : Blocks α) (ha : a ≠ memory) :
    obtain memory b h a = h a := by
  by_cases hm : memory = 0
  · rw [hm, obtain_null]
  · rw [obtain_apply hm, if_neg ha]

theorem obtain_self {memory : Address} (hm : memory ≠ 0) (b : α) (h : Blocks α) :
    obtain memory b h memory = some b := by
  rw [obtain_apply hm, if_pos rfl]

theorem release_of_ne {memory a : Address} (h : Blocks α) (ha : a ≠ memory) :
    release memory h a = h a := by
  rw [release_apply, if_neg ha]

theorem giveBack_of_ne {memory answer a : Address} (released : Bool) (b : α) (h : Blocks α)
    (hne : a ≠ memory) (hnew : a ≠ answer) : giveBack memory released answer b h a = h a := by
  unfold giveBack
  split_ifs
  · rw [obtain_of_ne _ _ hnew, release_of_ne _ hne]
  · rfl

theorem eq_or_of_obtain {memory a : Address} {b v : α} {h : Blocks α}
    (hv : obtain memory b h a = some v) : v = b ∨ h a = some v := by
  unfold obtain at hv
  split_ifs at hv
  · exact .inr hv
  · rw [Function.update_apply] at hv
    split_ifs at hv
    · exact .inl (Option.some.inj hv).symm
    · exact .inr hv

theorem of_release {memory a : Address} {v : α} {h : Blocks α}
    (hv : release memory h a = some v) : h a = some v := by
  rw [release_apply] at hv
  split_ifs at hv
  exact hv

theorem eq_or_of_giveBack {memory answer a : Address} {released : Bool} {b v : α} {h : Blocks α}
    (hv : giveBack memory released answer b h a = some v) : v = b ∨ h a = some v := by
  unfold giveBack at hv
  split_ifs at hv
  · exact (eq_or_of_obtain hv).imp_right of_release
  · exact .inr hv

/-- A block that moves. -/
theorem move_apply {new : Address} (hm : new ≠ 0) (old : Address) (b : α) (h : Blocks α)
    (a : Address) : obtain new b (release old h) a =
      if a = new then some b else if a = old then none else h a := by
  rw [obtain_apply hm, release_apply]

end Blocks

structure Block where
  number : ℕ
  size : ℕ
  internal : Bool
deriving DecidableEq, Repr

/-- What a wrapper passes to `instrumentedAllocate`. -/
structure Request where
  size : UInt64
  alignment : UInt64
  fingerprint : CallstackFingerprint
  zeroFill : ZeroFill
deriving DecidableEq, Repr

inductive Event where
  | setWatchState (watchState : WatchState)
  | allocate (c : Caller) (request : Request) (answer : Address) (capacity : ℕ)
  | reallocate (c : Caller) (oldMemory : Address) (newRequestedSize : UInt64) (answer : Address)
      (capacity : ℕ)
  | free (c : Caller) (memory : Address) (released : Bool) (answer : Address) (capacity : ℕ)
  | patrol (time : UInt64) (lightOrder watchedOrder : List Address)
deriving DecidableEq

structure System where
  watchState : WatchState
  table : AllocationTable
  heap : Blocks ℕ
  held : Blocks Block
  nextBlock : ℕ

/-- What an effect does to the live blocks, given the meaning of the real calls. -/
def Effect.onHeap (meaning : RealCall → Address → Blocks ℕ → Blocks ℕ) (h : Blocks ℕ) :
    Effect → Blocks ℕ
  | .real call answer => meaning call answer h
  | .bzero _ _ => h
  | .memcpy _ _ _ => h

/-- A real reallocation that fails leaves the old block; the `memalign` of the
table does not know of it. -/
def reallocated (oldMemory : Address) (capacity : ℕ) :
    RealCall → Address → Blocks ℕ → Blocks ℕ
  | .preferred, answer, h =>
      if answer = 0 then h else Blocks.obtain answer capacity (Blocks.release oldMemory h)
  | .memalign _ _, answer, h => Blocks.obtain answer capacity h

namespace System

variable (env : Environment)

def next (s : System) : Event → Option System
  | .setWatchState w => some { s with watchState := w }
  | .allocate c r answer capacity =>
      let o := s.table.instrumentedAllocate env c r.size.toUInt32 r.alignment.toUInt32
        r.fingerprint (fun _ => answer) r.zeroFill
      some { s with
        table := o.table
        heap := o.effects.foldl (Effect.onHeap fun _ new => Blocks.obtain new capacity) s.heap
        held := Blocks.obtain o.memory ⟨s.nextBlock, r.size.toNat, c.inLibrary⟩ s.held
        nextBlock := s.nextBlock + 1 }
  | .reallocate c oldMemory newRequestedSize answer capacity =>
      (s.table.instrumentedReallocate env c oldMemory newRequestedSize fun _ => answer).map
        fun o : Outcome =>
          { s with
            table := o.table
            heap := o.effects.foldl (Effect.onHeap (reallocated oldMemory capacity)) s.heap
            held :=
              match s.held oldMemory with
              | none => s.held
              | some b =>
                  if o.memory = 0 then s.held
                  else Blocks.obtain o.memory { b with size := newRequestedSize.toNat }
                    (Blocks.release oldMemory s.held) }
  | .free c memory released answer capacity =>
      let (table, effects) := s.table.instrumentedFree c memory fun _ => answer
      some { s with
        table := table
        heap := effects.foldl (Effect.onHeap fun _ new =>
          Blocks.giveBack memory released new capacity) s.heap
        held := if memory = 0 then s.held
          else Blocks.giveBack memory released answer ⟨s.nextBlock, 0, c.inLibrary⟩ s.held
        nextBlock := s.nextBlock + 1 }
  | .patrol time lightOrder watchedOrder =>
      let (table, _) :=
        s.table.patrolThreadUpdateAllocationStates env time lightOrder watchedOrder
      some { s with table := table }

/-- The leaks that an event reports. -/
def foundLeaks (s : System) : Event → List FoundLeak
  | .patrol time lightOrder watchedOrder =>
      (s.table.patrolThreadUpdateAllocationStates env time lightOrder watchedOrder).2.2
  | _ => []

/-- `NULL` or an address that is not live. -/
def Fresh (s : System) (answer : Address) : Prop := answer = 0 ∨ s.heap answer = none

/-- The caller holds the block. -/
def Holds (s : System) (c : Caller) (memory : Address) : Prop :=
  ∃ b, s.held memory = some b ∧ b.internal = c.inLibrary

/-- The call replaces the block of a closely watched allocation. -/
def Replaces (s : System) (c : Caller) (oldMemory : Address) (newRequestedSize : UInt64) : Prop :=
  ∃ alloc, s.table.FindsWatched c oldMemory alloc ∧
    AllocationTable.Repaginates env alloc newRequestedSize

/-- What callers and real allocators owe: callers free and reallocate blocks
they hold, and a real allocator returns `NULL`, an address that is not live or,
when it is given the block, its address. The patrol visits every key once. -/
def Allowed (s : System) : Event → Prop
  | .setWatchState _ => True
  | .allocate c _ answer _ => c.watchState = s.watchState ∧ s.Fresh answer
  | .reallocate c oldMemory newRequestedSize answer _ =>
      c.watchState = s.watchState ∧ s.Holds c oldMemory ∧
        (s.Fresh answer ∨ answer = oldMemory ∧ ¬ s.Replaces env c oldMemory newRequestedSize)
  | .free c memory _ answer _ =>
      c.watchState = s.watchState ∧ (memory = 0 ∨ s.Holds c memory) ∧
        (s.Fresh answer ∨ answer = memory)
  | .patrol _ lightOrder watchedOrder =>
      UnorderedMap.Enumerates lightOrder s.table.lightAllocationsByAddress ∧
        UnorderedMap.Enumerates watchedOrder s.table.closelyWatchedAllocationsByAddress

instance (s : System) (answer : Address) : Decidable (s.Fresh answer) :=
  inferInstanceAs (Decidable (_ ∨ _))

instance (s : System) (c : Caller) (memory : Address) : Decidable (s.Holds c memory) :=
  decidable_of_iff ((s.held memory).map Block.internal = some c.inLibrary) Option.map_eq_some_iff

theorem replaces_iff (s : System) (c : Caller) (oldMemory : Address) (newRequestedSize : UInt64) :
    s.Replaces env c oldMemory newRequestedSize ↔ ¬ AllocationTable.Bypasses c ∧
      s.table.lightAllocationsByAddress.lookup oldMemory = none ∧
      ∃ alloc ∈ s.table.closelyWatchedAllocationsByAddress.lookup oldMemory,
        AllocationTable.Repaginates env alloc newRequestedSize := by
  simp only [Replaces, AllocationTable.FindsWatched, Option.mem_def, and_assoc, exists_and_left]

instance (s : System) (c : Caller) (oldMemory : Address) (newRequestedSize : UInt64) :
    Decidable (s.Replaces env c oldMemory newRequestedSize) :=
  decidable_of_iff _ (s.replaces_iff env c oldMemory newRequestedSize).symm

instance (s : System) : (e : Event) → Decidable (s.Allowed env e)
  | .setWatchState _ => inferInstanceAs (Decidable True)
  | .allocate _ _ _ _ | .patrol _ _ _ => inferInstanceAs (Decidable (_ ∧ _))
  | .reallocate _ _ _ _ _ | .free _ _ _ _ _ => inferInstanceAs (Decidable (_ ∧ _ ∧ _))

def Step (s : System) (e : Event) (s' : System) : Prop := s.Allowed env e ∧ s.next env e = some s'

/-- The `memalign` that replaces a closely watched block does not fail. -/
def ReplacementSucceeds (s : System) : Event → Prop
  | .reallocate c oldMemory newRequestedSize answer _ =>
      s.Replaces env c oldMemory newRequestedSize → answer ≠ 0
  | _ => True

instance (s : System) : (e : Event) → Decidable (s.ReplacementSucceeds env e)
  | .reallocate _ _ _ _ _ => inferInstanceAs (Decidable (_ → _))
  | .setWatchState _ | .allocate _ _ _ _ | .free _ _ _ _ _ | .patrol _ _ _ =>
      inferInstanceAs (Decidable True)

/-- The table is empty and the live blocks are the held ones, which have
different numbers. -/
structure Initial (s : System) : Prop where
  table : s.table = .empty
  live_iff : ∀ a, s.heap a = none ↔ s.held a = none
  null : s.held 0 = none
  number_lt : ∀ a b, s.held a = some b → b.number < s.nextBlock
  number_inj : ∀ a b a' b', s.held a = some b → s.held a' = some b' → b.number = b'.number →
    a = a'

/-- Nothing is live yet. -/
def start : System := ⟨.notWatching, .empty, fun _ => none, fun _ => none, 0⟩

theorem initial_start : start.Initial where
  table := rfl
  live_iff _ := by simp [start]
  null := rfl
  number_lt _ _ h := nomatch h
  number_inj _ _ _ _ h := nomatch h

def callerAt (time : UInt64) : Caller := ⟨.watching, false, time, 0, ⟨[1]⟩⟩

variable {env : Environment} {s s' : System}

theorem foldl_fill (meaning : RealCall → Address → Blocks ℕ → Blocks ℕ) (h : Blocks ℕ)
    (zeroFill : ZeroFill) (memory : Address) (size : UInt32) :
    (zeroFill.fill memory size).foldl (Effect.onHeap meaning) h = h := by
  unfold ZeroFill.fill
  split_ifs <;> rfl

theorem step_allocate {c : Caller} {r : Request} {answer : Address} {capacity : ℕ}
    (h : s.Step env (.allocate c r answer capacity) s') :
    c.watchState = s.watchState ∧ s.Fresh answer ∧ ∃ effects t',
      AllocationTable.AllocateCase env s.table c r.size.toUInt32 r.alignment.toUInt32
        r.fingerprint (fun _ => answer) r.zeroFill ⟨t', answer, effects⟩ ∧
      s' = { s with
        table := t'
        heap := Blocks.obtain answer capacity s.heap
        held := Blocks.obtain answer ⟨s.nextBlock, r.size.toNat, c.inLibrary⟩ s.held
        nextBlock := s.nextBlock + 1 } := by
  obtain ⟨⟨hwatch, hfresh⟩, hnext⟩ := h
  refine ⟨hwatch, hfresh, ?_⟩
  have hcase := AllocationTable.instrumentedAllocate_cases env s.table c r.size.toUInt32
    r.alignment.toUInt32 r.fingerprint (fun _ => answer) r.zeroFill
  simp only [next, Option.some.injEq] at hnext
  generalize s.table.instrumentedAllocate env c r.size.toUInt32 r.alignment.toUInt32
    r.fingerprint (fun _ => answer) r.zeroFill = o at hcase hnext
  subst hnext
  cases hcase with
  | untracked t' call memory hsame hlight hmemory hcall =>
      subst hmemory
      exact ⟨_, t', .untracked t' call _ hsame hlight rfl hcall, rfl⟩
  | light t' hbypass hsame hnull hlight hlightly =>
      exact ⟨_, t', .light t' hbypass hsame hnull hlight hlightly, rfl⟩
  | watched t' call hcall hwatches hnull hlight hadd =>
      refine ⟨_, t', .watched t' call hcall hwatches hnull hlight hadd, ?_⟩
      rw [List.foldl_cons, foldl_fill]
      rfl

theorem step_reallocate {c : Caller} {oldMemory answer : Address} {newRequestedSize : UInt64}
    {capacity : ℕ} (h : s.Step env (.reallocate c oldMemory newRequestedSize answer capacity) s') :
    c.watchState = s.watchState ∧
      (s.Fresh answer ∨ answer = oldMemory ∧ ¬ s.Replaces env c oldMemory newRequestedSize) ∧
      ∃ b o, s.held oldMemory = some b ∧ b.internal = c.inLibrary ∧
        AllocationTable.ReallocateCase env s.table c oldMemory newRequestedSize (fun _ => answer)
          (some o) ∧
        s' = { s with
          table := o.table
          heap := o.effects.foldl (Effect.onHeap (reallocated oldMemory capacity)) s.heap
          held := if o.memory = 0 then s.held
            else Blocks.obtain o.memory { b with size := newRequestedSize.toNat }
              (Blocks.release oldMemory s.held) } := by
  obtain ⟨⟨hwatch, ⟨b, hb, hinternal⟩, hanswer⟩, hnext⟩ := h
  have hcase := AllocationTable.instrumentedReallocate_cases env s.table c oldMemory
    newRequestedSize fun _ => answer
  obtain ⟨o, ho, hs'⟩ := Option.map_eq_some_iff.mp hnext
  rw [ho] at hcase
  simp only [hb] at hs'
  exact ⟨hwatch, hanswer, b, o, hb, hinternal, hcase, hs'.symm⟩

theorem step_free {c : Caller} {memory answer : Address} {released : Bool} {capacity : ℕ}
    (h : s.Step env (.free c memory released answer capacity) s') :
    c.watchState = s.watchState ∧ (memory = 0 ∨ s.Holds c memory) ∧
      (s.Fresh answer ∨ answer = memory) ∧ ∃ effects t',
        AllocationTable.FreeCase s.table c memory (fun _ => answer) (t', effects) ∧
        s' = { s with
          table := t'
          heap := if memory = 0 then s.heap
            else Blocks.giveBack memory released answer capacity s.heap
          held := if memory = 0 then s.held
            else Blocks.giveBack memory released answer ⟨s.nextBlock, 0, c.inLibrary⟩ s.held
          nextBlock := s.nextBlock + 1 } := by
  obtain ⟨⟨hwatch, hholds, hanswer⟩, hnext⟩ := h
  refine ⟨hwatch, hholds, hanswer, ?_⟩
  have hcase := AllocationTable.instrumentedFree_cases s.table c memory fun _ => answer
  simp only [next, Option.some.injEq] at hnext
  generalize s.table.instrumentedFree c memory (fun _ => answer) = o at hcase hnext
  subst hnext
  refine ⟨o.2, o.1, hcase, ?_⟩
  cases hcase with
  | null hnull => simp [hnull]
  | untracked t' hnull => simp [hnull, Effect.onHeap]
  | light t' hnull => simp [hnull, Effect.onHeap]
  | watched t' alloc hnull => simp [hnull, Effect.onHeap]

theorem step_patrol {time : UInt64} {lightOrder watchedOrder : List Address}
    (h : s.Step env (.patrol time lightOrder watchedOrder) s') :
    UnorderedMap.Enumerates lightOrder s.table.lightAllocationsByAddress ∧
      UnorderedMap.Enumerates watchedOrder s.table.closelyWatchedAllocationsByAddress ∧
      s' = { s with table := (s.table.patrolThreadUpdateAllocationStates env time lightOrder
        watchedOrder).1 } :=
  ⟨h.1.1, h.1.2, (Option.some.inj h.2).symm⟩

end System

end AllocCounter
