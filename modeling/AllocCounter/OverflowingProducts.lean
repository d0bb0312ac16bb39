import AllocCounter.BlockCapacity
import AllocCounter.Ownership
import AllocCounter.FailedReallocations

/-!
# Overflowing products

The real `calloc` and `reallocarray` fail where the product of their arguments
does not fit in 64 bits. The wrappers compute the product modulo `2 ^ 64`, and the
table acts on it: a closely watched block is allocated, kept or replaced without
the real function, and a record goes before the real function has failed.
-/
namespace AllocCounter

open AllocationTable

variable {env : Environment}

/-- The block that a call is given. -/
def AllocatorCall.oldMemory : AllocatorCall → Address
  | free memory => memory
  | realloc oldMemory _ | reallocarray oldMemory _ _ => oldMemory
  | malloc _ | calloc _ _ | posix_memalign _ _ | aligned_alloc _ _ | valloc _ | memalign _ _
  | pvalloc _ => 0

namespace AllocatorCall

variable {asked callback : AllocatorCall}

/-- Only `calloc` and `reallocarray` ask for more than the address space. -/
theorem returnsPointer_of_overflow (h : 2 ^ 64 ≤ asked.bytes) : asked.returnsPointer = true := by
  cases asked with
  | free memory => exact absurd h (Nat.not_le.mpr (Nat.two_pow_pos 64))
  | malloc | calloc | posix_memalign | aligned_alloc | valloc | memalign | pvalloc | realloc
  | reallocarray => rfl

theorem oldMemory_of_reallocate {oldMemory : Address} {newRequestedSize : UInt64}
    (h : asked.wrapped env = .reallocate oldMemory newRequestedSize callback) :
    asked.oldMemory = oldMemory := by
  rcases of_wrapped_reallocate h with rfl | ⟨count, n, rfl, -⟩ <;> rfl

theorem oldMemory_of_free {memory : Address} (h : asked.wrapped env = .free memory callback) :
    asked.oldMemory = memory := by
  obtain ⟨-, rfl | ⟨-, rfl | ⟨count, n, rfl⟩⟩⟩ := of_wrapped_free h <;> rfl

end AllocatorCall

/-- A real function that is asked for an overflowing product fails. -/
theorem Effect.Honoured.null_of_overflow {asked : AllocatorCall} {capacity : ℕ} {answer : Address}
    (h : (Effect.real .preferred answer).Honoured env asked capacity)
    (hoverflow : 2 ^ 64 ≤ asked.bytes) : answer = 0 := by
  by_contra hnull
  have ⟨_, hbytes, hlt, _⟩ := h hnull
  exact absurd (hbytes.trans_lt hlt) (Nat.not_lt.mpr hoverflow)

namespace System

variable {s s' : System}

/-- The call returns `NULL`, and the block it is given and its records are as
before. -/
def Refuses (env : Environment) (s : System) (e : AppEvent) (oldMemory : Address) : Prop :=
  ∃ s', s.appNext env e = some s' ∧ s.returned env (e.event env) = 0 ∧
    s'.heap oldMemory = s.heap oldMemory ∧ s'.held oldMemory = s.held oldMemory ∧
    s'.table.lightAllocationsByAddress.lookup oldMemory =
      s.table.lightAllocationsByAddress.lookup oldMemory ∧
    s'.table.closelyWatchedAllocationsByAddress.lookup oldMemory =
      s.table.closelyWatchedAllocationsByAddress.lookup oldMemory

/-- A new block is not to be watched closely, or `memalign` fails; an old block
has no record, or the call goes past the table. -/
def ReachesRealFunction (env : Environment) (s : System) (c : Caller) (site : CallSite)
    (asked : AllocatorCall) (answer : Address) : Prop :=
  match asked.wrapped env with
  | .allocate size _ _ _ =>
      ¬ Watches env s.table c (makeCallstackFingerprint site size.toUInt32) ∨ answer = 0
  | .reallocate oldMemory _ _ | .free oldMemory _ => Bypasses c ∨ s.table.Untracked oldMemory

section Overflowing

variable {c : Caller} {site : CallSite} {asked callback : AllocatorCall} {answer : Address}
  {capacity : ℕ} (hoverflow : 2 ^ 64 ≤ asked.bytes)
  (hhonoured : s.Honoured env (.call c site asked answer capacity))

include hoverflow hhonoured

theorem refuses_allocate {size alignment : UInt64} {zeroFill : ZeroFill}
    (hwrapped : asked.wrapped env = .allocate size alignment callback zeroFill)
    (hstep : s.AppStep env (.call c site asked answer capacity) s') :
    s.Refuses env (.call c site asked answer capacity) asked.oldMemory ↔
      s.ReachesRealFunction env c site asked answer := by
  have hsystem := hstep.step
  have hnext := hstep.2
  simp only [Refuses, ReachesRealFunction, Honoured, appNext, AppEvent.event, hwrapped,
    InstrumentedCall.event] at hhonoured hsystem hnext ⊢
  obtain ⟨hmemory, hreal⟩ := s.table.instrumentedAllocate_real env c size.toUInt32 alignment.toUInt32
    (makeCallstackFingerprint site size.toUInt32) zeroFill answer
  have hreturned : s.returned env (.allocate c
      (InstrumentedCall.request site size alignment zeroFill) answer capacity) = answer := hmemory
  obtain ⟨-, -, effects, t', hcase, rfl⟩ := step_allocate hsystem
  rw [hreturned]
  by_cases hnull : answer = 0
  · refine iff_of_true ⟨_, hnext, hnull, ?_⟩ (.inr hnull)
    rw [hnull, Blocks.obtain_null, Blocks.obtain_null]
    cases hcase with
    | untracked t' call memory hsame hlight => rw [hlight, hsame.watched]; exact ⟨rfl, rfl, rfl, rfl⟩
    | light t' hbypass hsame hnot => exact absurd hnull hnot
    | watched t' call hcall hwatches hnot => exact absurd hnull hnot
  · refine iff_of_false ?_ fun hreaches => ?_
    · rintro ⟨_, _, hzero, _⟩
      exact hnull hzero
    obtain ⟨call, hcall, hkind⟩ := hreal hnull
    have hpreferred := (hkind.resolve_left fun hwatched =>
      (hreaches.resolve_right hnull) hwatched.1).2
    exact hnull ((hpreferred ▸ hhonoured _ hcall).null_of_overflow hoverflow)

theorem refuses_reallocate {oldMemory : Address} {newRequestedSize : UInt64}
    (hold : oldMemory ≠ 0)
    (hwrapped : asked.wrapped env = .reallocate oldMemory newRequestedSize callback) :
    s.Refuses env (.call c site asked answer capacity) asked.oldMemory ↔
      s.ReachesRealFunction env c site asked answer := by
  have hcase := instrumentedReallocate_cases env s.table c oldMemory newRequestedSize
    fun _ => answer
  rw [AllocatorCall.oldMemory_of_reallocate hwrapped]
  simp only [Refuses, ReachesRealFunction, Honoured, appNext, AppEvent.event, hwrapped,
    InstrumentedCall.event, next, effects, returned] at hhonoured ⊢
  generalize s.table.instrumentedReallocate env c oldMemory newRequestedSize (fun _ => answer) = r
    at hcase hhonoured
  cases hcase with
  | untracked t' hsame hlight hrecord =>
      have hnull := (hhonoured _ (List.mem_singleton_self _)).null_of_overflow hoverflow
      subst hnull
      refine iff_of_true ⟨_, rfl, rfl, rfl, ?_, congrArg _ hlight, congrArg _ hsame.watched⟩ hrecord
      cases hheld : s.held oldMemory with
      | none => exact hheld
      | some b => exact hheld
  | light t' alloc hbypass hrecord hsame hlight =>
      have hnull := (hhonoured _ (List.mem_singleton_self _)).null_of_overflow hoverflow
      subst hnull
      refine iff_of_false ?_ fun hreaches => ?_
      · rintro ⟨s', hs', _, _, _, hkept, _⟩
        rw [if_pos (Ne.symm hold)] at hlight
        rw [← Option.some.inj hs'] at hkept
        dsimp only at hkept
        rw [hlight, lookup_rekey, if_pos rfl, hrecord] at hkept
        cases hkept
      · have hnone := (hreaches.resolve_left hbypass).1
        rw [hrecord] at hnone
        cases hnone
  | crashed alloc hfinds =>
      refine iff_of_false ?_ fun hreaches => ?_
      · rintro ⟨s', hs', _⟩
        cases hs'
      · have hnone := (hreaches.resolve_left hfinds.1).2
        rw [hfinds.2.2] at hnone
        cases hnone
  | replaced t' call alloc hcall hfinds hpages hsame =>
      refine iff_of_false ?_ fun hreaches => ?_
      · rintro ⟨s', hs', _, _, _, _, hkept⟩
        rw [← Option.some.inj hs'] at hkept
        dsimp only at hkept
        rw [hsame.watched, lookup_rekey, if_pos rfl, hfinds.2.2] at hkept
        cases hkept
      · have hnone := (hreaches.resolve_left hfinds.1).2
        rw [hfinds.2.2] at hnone
        cases hnone
  | kept t' alloc hfinds =>
      refine iff_of_false ?_ fun hreaches => ?_
      · rintro ⟨_, _, hzero, _⟩
        exact hold hzero
      · have hnone := (hreaches.resolve_left hfinds.1).2
        rw [hfinds.2.2] at hnone
        cases hnone

theorem refuses_free {memory : Address} (hwrapped : asked.wrapped env = .free memory callback) :
    s.Refuses env (.call c site asked answer capacity) asked.oldMemory ↔
      s.ReachesRealFunction env c site asked answer := by
  obtain ⟨hmemory, -, hfrees⟩ := AllocatorCall.wrapped_free hwrapped
    (AllocatorCall.returnsPointer_of_overflow hoverflow)
  have hkeeps : callback.frees = false := hfrees.trans (decide_eq_false (Nat.not_lt.mpr hoverflow))
  have hcase := instrumentedFree_cases s.table c memory fun _ => answer
  rw [AllocatorCall.oldMemory_of_free hwrapped]
  simp only [Refuses, ReachesRealFunction, Honoured, appNext, AppEvent.event, hwrapped,
    InstrumentedCall.event, next, effects, returned, hkeeps] at hhonoured ⊢
  generalize s.table.instrumentedFree c memory (fun _ => answer) = r at hcase hhonoured
  have hnull : answer = 0 := by
    cases hcase with
    | null hzero => exact absurd hzero hmemory
    | untracked | light | watched =>
        exact (hhonoured _ (List.mem_singleton_self _)).null_of_overflow hoverflow
  cases hcase with
  | null hzero => exact absurd hzero hmemory
  | untracked t' hnot hsame hlight hrecord =>
      refine iff_of_true ⟨_, rfl, hnull, rfl, ?_, congrArg _ hlight, congrArg _ hsame.watched⟩
        hrecord
      dsimp only
      rw [if_neg hmemory]
      rfl
  | light t' hnot hsame hbypass hrecord hlight =>
      refine iff_of_false ?_ fun hreaches => ?_
      · rintro ⟨s', hs', _, _, _, hkept, _⟩
        rw [← Option.some.inj hs'] at hkept
        dsimp only at hkept
        rw [hlight, Finmap.lookup_erase] at hkept
        exact Finmap.lookup_eq_none.mp hkept.symm hrecord
      · exact Finmap.lookup_eq_none.mp (hreaches.resolve_left hbypass).1 hrecord
  | watched t' alloc hnot hfinds hlight hwatched =>
      refine iff_of_false ?_ fun hreaches => ?_
      · rintro ⟨s', hs', _, _, _, _, hkept⟩
        rw [← Option.some.inj hs'] at hkept
        dsimp only at hkept
        rw [hwatched, Finmap.lookup_erase, hfinds.2.2] at hkept
        cases hkept
      · have hnone := (hreaches.resolve_left hfinds.1).2
        rw [hfinds.2.2] at hnone
        cases hnone

end Overflowing

/-- In every state of every run, for every `calloc` and `reallocarray` whose
product does not fit in 64 bits (no other call asks for as many bytes): it is
refused, with the old block and its records as before, if and only if it reaches
the real function before the table has acted on the wrapped product. -/
theorem overflow_refused_iff (x : Execution Initial (AppStep env)) {i : ℕ} (hi : i ≤ x.length)
    {c : Caller} {site : CallSite} {asked : AllocatorCall} {answer : Address} {capacity : ℕ}
    (hoverflow : 2 ^ 64 ≤ asked.bytes)
    (hallowed : (x.state i).AppAllowed env (.call c site asked answer capacity)) :
    (x.state i).Refuses env (.call c site asked answer capacity) asked.oldMemory ↔
      (x.state i).ReachesRealFunction env c site asked answer := by
  cases hwrapped : asked.wrapped env with
  | allocate size alignment callback zeroFill =>
      have hnext : ∃ s', (x.state i).appNext env (.call c site asked answer capacity) = some s' := by
        simp only [appNext, AppEvent.event, hwrapped, InstrumentedCall.event]
        exact ⟨_, rfl⟩
      obtain ⟨s', hs'⟩ := hnext
      exact refuses_allocate hoverflow hallowed.2 hwrapped ⟨hallowed, hs'⟩
  | reallocate oldMemory newRequestedSize callback =>
      refine refuses_reallocate hoverflow hallowed.2 ?_ hwrapped
      have hheld : ∀ i ≤ x.length, (x.state i).held 0 = none :=
        x.holds_at _ x.starts.null fun i hi h => held_null_step h (x.steps i hi).step
      have hholds := hallowed.1
      simp only [AppEvent.event, hwrapped, InstrumentedCall.event] at hholds
      obtain ⟨-, ⟨b, hb, -⟩, -⟩ := hholds
      exact ne_null_of_held (hheld i hi) hb
  | free memory callback => exact refuses_free hoverflow hallowed.2 hwrapped

/-- Before its time is over, a `calloc` of `2 ^ 33` members of `2 ^ 32` bytes is
refused. -/
theorem overflow_refused_iff_keptRun :
    (keptRun.state 2).Refuses .default
      (.call (callerAt 1) ⟨0, 0⟩ (.calloc (2 ^ 33) (2 ^ 32)) 0 0) 0 :=
  (overflow_refused_iff keptRun (by decide) (by decide) (by decide +kernel)).mpr (.inr rfl)

/-- A `reallocarray` of the closely watched block of the run, whose product wraps
to zero, returns `NULL`, as the real function does, but the record is gone. -/
theorem not_refused_keptRun :
    ¬ ∀ (x : Execution Initial (AppStep .default)), ∀ i ≤ x.length, ∀ c site asked answer capacity,
      2 ^ 64 ≤ asked.bytes →
      (x.state i).AppAllowed .default (.call c site asked answer capacity) →
      (x.state i).Refuses .default (.call c site asked answer capacity) asked.oldMemory := by
  intro h
  obtain ⟨s', hs', -, -, -, -, hkept⟩ := h keptRun 4 (by decide) (callerAt 41) ⟨0, 0⟩
    (.reallocarray 0x2000 (2 ^ 32) (2 ^ 32)) 0 0 (by decide) (by decide +kernel)
  have hgone : ((keptRun.state 4).appNext .default (.call (callerAt 41) ⟨0, 0⟩
      (.reallocarray 0x2000 (2 ^ 32) (2 ^ 32)) 0 0)).map
        (fun s => s.table.closelyWatchedAllocationsByAddress.lookup 0x2000) = some none := by
    decide +kernel
  have hsame : s'.table.closelyWatchedAllocationsByAddress.lookup 0x2000 =
      (keptRun.state 4).table.closelyWatchedAllocationsByAddress.lookup 0x2000 := hkept
  rw [hs', Option.map_some, hsame, Option.some.injEq] at hgone
  revert hgone
  decide +kernel

end System

end AllocCounter
