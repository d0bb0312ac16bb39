import AllocCounter.MallocWrappers

/-!
# Size and alignment of the blocks

The table takes sizes and alignments of 32 bits, and rounding a size up to whole
pages may wrap. A returned block is as large and as aligned as asked where the
real function serves the call, and in a closely watched block if what is asked
survives the conversions.
-/
namespace AllocCounter

open AllocationTable

variable {env : Environment}

namespace AllocatorCall

variable {asked callback : AllocatorCall}

/-- What a wrapper passes to `instrumentedAllocate`. -/
theorem wrapped_allocate {size alignment : UInt64} {zeroFill : ZeroFill}
    (h : asked.wrapped env = .allocate size alignment callback zeroFill) :
    size.toNat = asked.bytes % 2 ^ 64 ∧ alignment.toNat = asked.alignment env := by
  cases asked with
  | malloc n | posix_memalign a n | aligned_alloc a n | memalign a n =>
      obtain ⟨rfl, rfl, -, -⟩ := InstrumentedCall.allocate.inj h
      exact ⟨(Nat.mod_eq_of_lt n.toNat_lt).symm, rfl⟩
  | valloc n | pvalloc n =>
      obtain ⟨rfl, rfl, -, -⟩ := InstrumentedCall.allocate.inj h
      exact ⟨(Nat.mod_eq_of_lt n.toNat_lt).symm, UInt32.toNat_toUInt64 _⟩
  | calloc count n =>
      obtain ⟨rfl, rfl, -, -⟩ := InstrumentedCall.allocate.inj h
      exact ⟨UInt64.toNat_mul _ _, rfl⟩
  | free memory => exact nomatch h
  | realloc old n =>
      simp only [wrapped, Wrapper.realloc] at h
      split_ifs at h
      obtain ⟨rfl, rfl, -, -⟩ := InstrumentedCall.allocate.inj h
      exact ⟨(Nat.mod_eq_of_lt n.toNat_lt).symm, rfl⟩
  | reallocarray old count n =>
      simp only [wrapped, Wrapper.reallocarray] at h
      split_ifs at h
      obtain ⟨rfl, rfl, -, -⟩ := InstrumentedCall.allocate.inj h
      exact ⟨UInt64.toNat_mul _ _, rfl⟩

/-- What a wrapper passes to `instrumentedReallocate`. -/
theorem wrapped_reallocate {oldMemory : Address} {newRequestedSize : UInt64}
    (h : asked.wrapped env = .reallocate oldMemory newRequestedSize callback) :
    newRequestedSize.toNat = asked.bytes % 2 ^ 64 ∧ asked.alignment env = 1 := by
  rcases of_wrapped_reallocate h with rfl | ⟨count, n, rfl, rfl⟩
  · exact ⟨(Nat.mod_eq_of_lt newRequestedSize.toNat_lt).symm, rfl⟩
  · exact ⟨UInt64.toNat_mul _ _, rfl⟩

/-- A call that returns a pointer is taken for a `free` where it asks for a block of size zero;
where only the wrapped product is zero, nothing is freed. -/
theorem wrapped_free {memory : Address} (h : asked.wrapped env = .free memory callback)
    (hpointer : asked.returnsPointer = true) :
    memory ≠ 0 ∧ asked.alignment env = 1 ∧ callback.frees = decide (asked.bytes < 2 ^ 64) := by
  obtain ⟨rfl, rfl | ⟨hold, rfl | ⟨count, n, rfl⟩⟩⟩ := of_wrapped_free h
  · exact nomatch hpointer
  · exact ⟨hold, rfl, rfl⟩
  · exact ⟨hold, rfl, rfl⟩

end AllocatorCall

namespace AllocationTable

variable {t : AllocationTable} {c : Caller} {real : RealCall → Address}

variable (env c) in
/-- The pointer that an allocation returns, and the real call it comes from. -/
theorem instrumentedAllocate_real (size alignment : UInt32) (fingerprint : CallstackFingerprint)
    (zeroFill : ZeroFill) (answer : Address) :
    let o := t.instrumentedAllocate env c size alignment fingerprint (fun _ => answer) zeroFill
    o.memory = answer ∧ (answer ≠ 0 → ∃ call, .real call answer ∈ o.effects ∧
      (Watches env t c fingerprint ∧ call = watchedCall env size alignment ∨
        ¬ Watches env t c fingerprint ∧ call = .preferred)) := by
  have hcase := instrumentedAllocate_cases env t c size alignment fingerprint (fun _ => answer)
    zeroFill
  intro o
  change AllocateCase env t c size alignment fingerprint _ zeroFill o at hcase
  generalize o = o at hcase
  cases hcase with
  | untracked t' call memory hsame hlight hmemory hcall =>
      subst hmemory
      refine ⟨rfl, fun hnull => ?_⟩
      have hpreferred := hcall.resolve_right hnull
      exact ⟨call, List.mem_singleton_self _, .inr ⟨hpreferred.2, hpreferred.1⟩⟩
  | light t' hbypass hsame hnot hlight hlightly =>
      exact ⟨rfl, fun _ => ⟨_, List.mem_singleton_self _, .inr ⟨hlightly, rfl⟩⟩⟩
  | watched t' call hcall hwatches =>
      exact ⟨rfl, fun _ => ⟨call, List.mem_cons_self, .inl ⟨hwatches, hcall⟩⟩⟩

/-- The pointer that a reallocation returns, and the real call it comes from, if any. -/
theorem instrumentedReallocate_real (oldMemory : Address) (newRequestedSize : UInt64)
    (answer : Address) {o : Outcome}
    (h : t.instrumentedReallocate env c oldMemory newRequestedSize (fun _ => answer) = some o) :
    (o.memory = answer ∧ o.effects = [.real .preferred answer] ∧
        ∀ alloc, ¬ FindsWatched t c oldMemory alloc) ∨
      ∃ alloc, FindsWatched t c oldMemory alloc ∧
        (Repaginates env alloc newRequestedSize ∧ o.memory = answer ∧
            o.effects = [.real (replacingCall env newRequestedSize) answer,
              .memcpy answer oldMemory alloc.requestedSize] ∨
          ¬ Repaginates env alloc newRequestedSize ∧ o.memory = oldMemory ∧ o.effects = []) := by
  have hcase := instrumentedReallocate_cases env t c oldMemory newRequestedSize fun _ => answer
  rw [h] at hcase
  cases hcase with
  | untracked t' hsame hlight hrecord =>
      refine .inl ⟨rfl, rfl, fun alloc hfinds => ?_⟩
      have hnone := (hrecord.resolve_left hfinds.1).2
      rw [hfinds.2.2] at hnone
      exact nomatch hnone
  | light t' alloc hbypass hlight =>
      refine .inl ⟨rfl, rfl, fun alloc' hfinds => ?_⟩
      rw [hfinds.2.1] at hlight
      exact nomatch hlight
  | replaced t' call alloc hcall hfinds hpages =>
      subst hcall
      exact .inr ⟨alloc, hfinds, .inl ⟨hpages, rfl, rfl⟩⟩
  | kept t' alloc hfinds hpages => exact .inr ⟨alloc, hfinds, .inr ⟨hpages, rfl, rfl⟩⟩

theorem instrumentedFree_real {memory : Address} (hmemory : memory ≠ 0) :
    (t.instrumentedFree c memory real).2 = [.real .preferred (real .preferred)] := by
  unfold instrumentedFree
  rw [if_neg hmemory]
  dsimp only
  split_ifs
  · rfl
  · split
    · rfl
    · split <;> rfl

end AllocationTable

variable (env) in
/-- The table asks for as many bytes as the caller, unless the size does not fit. -/
theorem bytes_le_roundUp_iff {bytes : ℕ} {size : UInt64} (hsize : size.toNat = bytes % 2 ^ 64) :
    bytes ≤ (env.roundUpToPageMultiple size.toUInt32).toNat ↔
      bytes + env.pageSize.toNat ≤ 2 ^ 32 := by
  have hround := env.le_roundUpToPageMultiple_iff size.toUInt32
  have hlt := (env.roundUpToPageMultiple size.toUInt32).toNat_lt
  rw [UInt64.toNat_toUInt32, hsize] at hround
  constructor
  · intro h
    rw [Nat.mod_eq_of_lt (by omega), Nat.mod_eq_of_lt (by omega)] at hround
    exact hround.mp h
  · intro h
    have hpos := env.pageSize_pos
    rw [Nat.mod_eq_of_lt (by omega), Nat.mod_eq_of_lt (by omega)] at hround
    exact hround.mpr h

theorem toNat_le_max (a b : UInt32) : a.toNat ≤ (max a b).toNat := by
  change a.toNat ≤ (if a ≤ b then b else a).toNat
  split_ifs with h
  · exact UInt32.le_iff_toNat_le.mp h
  · exact le_rfl

/-- A power of two below `2 ^ 32` divides what `memalign` makes of it. -/
theorem dvd_granted_watchedCall {alignment : UInt64} {k : ℕ} (hk : k < 32)
    (ha : alignment.toNat = 2 ^ k) :
    2 ^ k ∣ 2 ^ Nat.clog 2 (max alignment.toUInt32 env.pageSize).toUInt64.toNat := by
  have hfits : 2 ^ k < 2 ^ 32 := Nat.pow_lt_pow_right (by omega) hk
  have hle := toNat_le_max alignment.toUInt32 env.pageSize
  rw [UInt64.toNat_toUInt32, ha, Nat.mod_eq_of_lt hfits] at hle
  rw [UInt32.toNat_toUInt64]
  apply Nat.pow_dvd_pow
  exact (Nat.pow_le_pow_iff_right (by omega)).mp (hle.trans (Nat.le_pow_clog (by omega) _))

namespace System

variable {s s' : System}

/-- `NULL`, or a block as large and as aligned as a call asks for. -/
def Serves (env : Environment) (asked : AllocatorCall) (heap : Blocks ℕ) (memory : Address) :
    Prop :=
  memory ≠ 0 → ∃ capacity ∈ heap memory, asked.bytes ≤ capacity ∧
    asked.alignment env ∣ memory.toNat

instance (asked : AllocatorCall) (heap : Blocks ℕ) (memory : Address) :
    Decidable (Serves env asked heap memory) :=
  inferInstanceAs (Decidable (_ → ∃ _ ∈ _, _ ∧ _))

/-- What a call returns serves it. -/
def Served (env : Environment) (s : System) (e : AppEvent) (s' : System) : Prop :=
  match e with
  | .call _ _ asked _ _ => asked.returnsPointer = true →
      Serves env asked s'.heap (s.returned env (e.event env))
  | .patrol _ _ _ | .setWatchState _ => True

/-- The call gets a closely watched block. -/
def GetsWatched (env : Environment) (s : System) : Event → Prop
  | .allocate c r _ _ => Watches env s.table c r.fingerprint
  | .reallocate c oldMemory _ _ _ => ∃ alloc, s.table.FindsWatched c oldMemory alloc
  | .setWatchState _ | .free _ _ _ _ _ | .patrol _ _ _ => False

/-- The real function grants the alignment asked for, and where the call gets a
closely watched block, its size still fits in 32 bits when rounded up and its
alignment is a power of two that fits. -/
def Fits (env : Environment) (s : System) (e : AppEvent) : Prop :=
  match e with
  | .call _ _ asked _ _ => asked.alignment env ∣ asked.grantedAlignment env ∧
      (s.GetsWatched env (e.event env) → asked.bytes + env.pageSize.toNat ≤ 2 ^ 32 ∧
        ∃ k < 32, asked.alignment env = 2 ^ k)
  | .patrol _ _ _ | .setWatchState _ => True

instance (s : System) : (e : Event) → Decidable (s.GetsWatched env e)
  | .allocate _ _ _ _ => inferInstanceAs (Decidable (_ ∧ _ ∧ _))
  | .reallocate c oldMemory _ _ _ => decidable_of_iff
      (¬ Bypasses c ∧ s.table.lightAllocationsByAddress.lookup oldMemory = none ∧
        (s.table.closelyWatchedAllocationsByAddress.lookup oldMemory).isSome) (by
      simp only [GetsWatched, FindsWatched, exists_and_left, Option.isSome_iff_exists])
  | .setWatchState _ | .free _ _ _ _ _ | .patrol _ _ _ => inferInstanceAs (Decidable False)

instance (s : System) : (e : AppEvent) → Decidable (s.Fits env e)
  | .call _ _ _ _ _ => inferInstanceAs (Decidable (_ ∧ (_ → _ ∧ ∃ k < 32, _)))
  | .patrol _ _ _ | .setWatchState _ => inferInstanceAs (Decidable True)

/-- The closely watched blocks are as large as their records say, in whole pages. -/
def Roomy (env : Environment) (s : System) : Prop :=
  ∀ a ≠ 0, ∀ alloc, s.table.closelyWatchedAllocationsByAddress.lookup a = some alloc →
    ∃ capacity, s.heap a = some capacity ∧
      (env.roundUpToPageMultiple alloc.requestedSize).toNat ≤ capacity

theorem roomy_initial (h : s.Initial) : s.Roomy env := by
  intro a _ alloc halloc
  rw [h.table] at halloc
  exact nomatch halloc

/-- The closely watched block of an allocation has the size that was asked of `memalign`. -/
theorem capacity_of_born {callback : AllocatorCall} {c : Caller} {r : Request} {a : Address}
    {capacity : ℕ} (ha : a ≠ 0) (hwatches : Watches env s.table c r.fingerprint)
    (hhonoured : ∀ effect ∈ s.effects env (.allocate c r a capacity),
      effect.Honoured env callback capacity) :
    (env.roundUpToPageMultiple r.size.toUInt32).toNat ≤ capacity := by
  have ⟨_, hreal⟩ := s.table.instrumentedAllocate_real env c
    r.size.toUInt32 r.alignment.toUInt32 r.fingerprint r.zeroFill a
  obtain ⟨call, hcall, hkind⟩ := hreal ha
  have hcontract := (hhonoured _ hcall ha).2.1
  obtain ⟨-, rfl⟩ := hkind.resolve_right fun h => h.1 hwatches
  rwa [watchedCall, RealCall.function, AllocatorCall.bytes, UInt32.toNat_toUInt64] at hcontract

/-- So has the block that replaces it. -/
theorem capacity_of_replaced {callback : AllocatorCall} {c : Caller} {oldMemory a : Address}
    {newRequestedSize : UInt64} {alloc : CloselyWatchedAllocation} {capacity : ℕ} (ha : a ≠ 0)
    (hfinds : s.table.FindsWatched c oldMemory alloc)
    (hpages : Repaginates env alloc newRequestedSize)
    (hnext : (s.next env (.reallocate c oldMemory newRequestedSize a capacity)).isSome)
    (hhonoured : ∀ effect ∈ s.effects env (.reallocate c oldMemory newRequestedSize a capacity),
      effect.Honoured env callback capacity) :
    (env.roundUpToPageMultiple newRequestedSize.toUInt32).toNat ≤ capacity := by
  obtain ⟨o, ho⟩ := Option.isSome_iff_exists.mp (Option.isSome_map.symm.trans hnext)
  rw [effects, ho] at hhonoured
  cases instrumentedReallocate_real oldMemory newRequestedSize a ho with
  | inl hother => exact absurd hfinds (hother.2.2 alloc)
  | inr hwatched =>
      obtain ⟨alloc', hfinds', hcase⟩ := hwatched
      obtain rfl : alloc = alloc' := Option.some.inj (hfinds.2.2.symm.trans hfinds'.2.2)
      have heffects := (hcase.resolve_right fun h => h.1 hpages).2.2
      have hcontract := (hhonoured _ (heffects ▸ List.mem_cons_self) ha).2.1
      rwa [replacingCall, RealCall.function, AllocatorCall.bytes, UInt32.toNat_toUInt64]
        at hcontract

/-- The capacity in the answer of an event. -/
def answered : Event → ℕ
  | .allocate _ _ _ capacity | .reallocate _ _ _ _ capacity | .free _ _ _ _ capacity => capacity
  | .setWatchState _ | .patrol _ _ _ => 0

theorem answered_event (i : InstrumentedCall) (c : Caller) (site : CallSite) (answer : Address)
    (capacity : ℕ) : answered (i.event c site answer capacity) = capacity := by
  cases i <;> rfl

/-- The contract of an event, of whatever call it comes from. -/
theorem AppAllowed.honoured {e : AppEvent} {event : Event} (h : s.AppAllowed env e)
    (hevent : e.event env = event) : ∃ asked, ∀ effect ∈ s.effects env event,
      effect.Honoured env asked (answered event) := by
  subst hevent
  cases e with
  | setWatchState | patrol => exact ⟨.malloc 0, fun effect heffect => nomatch heffect⟩
  | call c site asked answer capacity =>
      refine ⟨asked, ?_⟩
      rw [AppEvent.event, answered_event]
      exact h.2

theorem Roomy.step (h : s.Roomy env) (hc : s.Consistent) {e : AppEvent}
    (hsync : s.Synced (e.event env)) (hstep : s.AppStep env e s') : s'.Roomy env := by
  intro a ha alloc' halloc'
  have hrecord := recordStep hc hsync hstep.step ha halloc'
  cases hrecord with
  | stays halloc hheld hheap => exact hheap ▸ h a ha alloc' halloc
  | suspected time lightOrder watchedOrder alloc hevent halloc hstate hexpired heq hheld hheap =>
      rw [heq, hheap]
      exact h a ha alloc halloc
  | kept c newRequestedSize answer capacity alloc b hevent hfinds hpages heq hb hheld hheap =>
      rw [heq, hheap]
      obtain ⟨capacity, hcapacity, hle⟩ := h a ha alloc hfinds.2.2
      exact ⟨capacity, hcapacity, (congrArg UInt32.toNat (not_not.mp hpages)).le.trans hle⟩
  | born c r capacity hevent hwatches heq hheld hheap =>
      obtain ⟨asked, hhonoured⟩ := hstep.1.honoured hevent
      rw [heq]
      exact ⟨capacity, hheap, capacity_of_born ha hwatches hhonoured⟩
  | replaced c oldMemory newRequestedSize capacity alloc b hevent hfinds hpages heq hb hheld
      hheap =>
      obtain ⟨asked, hhonoured⟩ := hstep.1.honoured hevent
      have hnext : (s.next env (e.event env)).isSome := Option.isSome_of_eq_some hstep.2
      rw [hevent] at hnext
      rw [heq]
      exact ⟨capacity, hheap, capacity_of_replaced ha hfinds hpages hnext hhonoured⟩

theorem served_allocate {asked callback : AllocatorCall} {c : Caller} {site : CallSite}
    {size alignment : UInt64} {zeroFill : ZeroFill} {answer : Address} {capacity : ℕ}
    (hwrapped : asked.wrapped env = .allocate size alignment callback zeroFill)
    (hfits : s.Fits env (.call c site asked answer capacity))
    (hstep : s.AppStep env (.call c site asked answer capacity) s') :
    s.Served env (.call c site asked answer capacity) s' := by
  have hsystem := hstep.step
  have hhonoured := hstep.1.2
  simp only [Fits, Served, Honoured, AppEvent.event, hwrapped, InstrumentedCall.event]
    at hfits hsystem hhonoured ⊢
  obtain ⟨-, -, effects, t', -, rfl⟩ := step_allocate hsystem
  obtain ⟨hmemory, hreal⟩ := s.table.instrumentedAllocate_real env c size.toUInt32 alignment.toUInt32
     (makeCallstackFingerprint site size.toUInt32) zeroFill answer
  obtain ⟨hsize, halignment⟩ := AllocatorCall.wrapped_allocate hwrapped
  have hreturned : s.returned env (.allocate c
      (InstrumentedCall.request site size alignment zeroFill) answer capacity) = answer := hmemory
  intro _ hnull
  rw [hreturned] at hnull ⊢
  obtain ⟨call, hcall, hkind⟩ := hreal hnull
  obtain ⟨_, hbytes, _, haligned⟩ := hhonoured _ hcall hnull
  refine ⟨capacity, Blocks.obtain_self hnull _ _, ?_⟩
  cases hkind with
  | inr hpreferred =>
      rw [hpreferred.2] at hbytes haligned
      exact ⟨hbytes, hfits.1.trans haligned⟩
  | inl hwatched =>
      rw [hwatched.2] at hbytes haligned
      obtain ⟨hfit, k, hk, hpow⟩ := hfits.2 hwatched.1
      constructor
      · apply ((bytes_le_roundUp_iff env hsize).mpr hfit).trans
        rwa [watchedCall, RealCall.function, AllocatorCall.bytes, UInt32.toNat_toUInt64] at hbytes
      · rw [hpow]
        exact (dvd_granted_watchedCall hk (halignment.trans hpow)).trans haligned

theorem served_reallocate {asked callback : AllocatorCall} {c : Caller} {site : CallSite}
    {oldMemory : Address} {newRequestedSize : UInt64} {answer : Address} {capacity : ℕ}
    (hwrapped : asked.wrapped env = .reallocate oldMemory newRequestedSize callback)
    (hroomy : s.Roomy env) (hfits : s.Fits env (.call c site asked answer capacity))
    (hstep : s.AppStep env (.call c site asked answer capacity) s') :
    s.Served env (.call c site asked answer capacity) s' := by
  have hsystem := hstep.step
  have hhonoured := hstep.1.2
  have ⟨hsize, halignment⟩ := AllocatorCall.wrapped_reallocate hwrapped
  simp only [Fits, Served, Honoured, AppEvent.event, hwrapped, InstrumentedCall.event]
    at hfits hsystem hhonoured ⊢
  obtain ⟨o, ho, rfl⟩ := Option.map_eq_some_iff.mp hsystem.2
  simp only [returned, effects, Serves, ho, Option.elim_some, halignment, one_dvd, and_true]
    at hhonoured ⊢
  intro _ hnull
  cases instrumentedReallocate_real oldMemory newRequestedSize answer ho with
  | inl hpreferred =>
      obtain ⟨hmemory, heffects, -⟩ := hpreferred
      rw [hmemory] at hnull ⊢
      rw [heffects] at hhonoured ⊢
      refine ⟨capacity, ?_, (hhonoured _ (List.mem_singleton_self _) hnull).2.1⟩
      simp only [List.foldl_cons, List.foldl_nil, Effect.onHeap, reallocated]
      rw [if_neg hnull, Blocks.obtain_self hnull]
      exact Option.mem_some_self _
  | inr hwatched =>
      obtain ⟨alloc, hfinds, hcase⟩ := hwatched
      have hfit := (hfits.2 ⟨alloc, hfinds⟩).1
      have hround := (bytes_le_roundUp_iff env hsize).mpr hfit
      cases hcase with
      | inl hreplaced =>
          obtain ⟨-, hmemory, heffects⟩ := hreplaced
          rw [hmemory] at hnull ⊢
          rw [heffects] at hhonoured ⊢
          have hbytes := (hhonoured _ List.mem_cons_self hnull).2.1
          rw [replacingCall, RealCall.function, AllocatorCall.bytes, UInt32.toNat_toUInt64] at hbytes
          refine ⟨capacity, ?_, hround.trans hbytes⟩
          simp only [List.foldl_cons, List.foldl_nil, Effect.onHeap, replacingCall, reallocated]
          exact Blocks.obtain_self hnull _ _
      | inr hkept =>
          obtain ⟨hpages, hmemory, heffects⟩ := hkept
          rw [hmemory] at hnull ⊢
          rw [heffects]
          obtain ⟨capacity', hheap, hle⟩ := hroomy oldMemory hnull alloc hfinds.2.2
          refine ⟨capacity', hheap, hround.trans ?_⟩
          rwa [not_not.mp hpages]

/-- A `realloc` to size zero frees the block, and may return an empty one. -/
theorem served_free {asked callback : AllocatorCall} {c : Caller} {site : CallSite}
    {memory answer : Address} {capacity : ℕ}
    (hwrapped : asked.wrapped env = .free memory callback)
    (hstep : s.AppStep env (.call c site asked answer capacity) s') :
    s.Served env (.call c site asked answer capacity) s' := by
  have hsystem := hstep.step
  have hhonoured := hstep.1.2
  simp only [Served, Honoured, AppEvent.event, hwrapped, InstrumentedCall.event]
    at hsystem hhonoured ⊢
  intro hpointer hnull
  obtain ⟨hmemory, halignment, hfrees⟩ := AllocatorCall.wrapped_free hwrapped hpointer
  obtain ⟨-, -, -, effects, t', -, rfl⟩ := step_free hsystem
  rw [System.effects, AllocationTable.instrumentedFree_real hmemory] at hhonoured
  obtain ⟨_, hbytes, hlt, _⟩ := hhonoured _ (List.mem_singleton_self _) hnull
  have hreleased : callback.frees = true := by
    rw [hfrees]
    exact decide_eq_true (hbytes.trans_lt hlt)
  refine ⟨capacity, ?_, hbytes, halignment ▸ one_dvd _⟩
  dsimp only [returned]
  rw [if_neg hmemory, Blocks.giveBack, if_pos hreleased]
  exact Blocks.obtain_self hnull _ _

theorem served_step (hroomy : s.Roomy env) {e : AppEvent} (hfits : s.Fits env e)
    (hstep : s.AppStep env e s') : s.Served env e s' := by
  cases e with
  | setWatchState | patrol => trivial
  | call c site asked answer capacity =>
      cases hwrapped : asked.wrapped env with
      | allocate size alignment callback zeroFill => exact served_allocate hwrapped hfits hstep
      | reallocate oldMemory newRequestedSize callback =>
          exact served_reallocate hwrapped hroomy hfits hstep
      | free memory callback => exact served_free hwrapped hstep

/-- In every run whose steps meet the two conditions, a call returns `NULL` or a
block as large and as aligned as it asks for. -/
theorem all_served (x : Execution Initial (AppStep env))
    (hfits : ∀ i < x.length, (x.state i).Fits env (x.event i))
    (hsync : ∀ i < x.length, (x.state i).Synced ((x.event i).event env)) :
    ∀ i < x.length, (x.state i).Served env (x.event i) (x.state (i + 1)) := by
  have hroomy : ∀ i ≤ x.length, (x.state i).Consistent ∧ (x.state i).Roomy env := by
    apply x.invariant (I := fun s => s.Consistent ∧ s.Roomy env)
      (C := fun s e => s.Synced (e.event env)) ?_ ?_ hsync
    · exact fun _ hs => ⟨consistent_initial hs, roomy_initial hs⟩
    · exact fun _ _ _ h hs hstep => ⟨h.1.step hs hstep.step, h.2.step h.1 hs hstep⟩
  exact fun i hi => served_step (hroomy i hi.le).2 (hfits i hi) (x.steps i hi)

/-- A light allocation outlives its time, and an allocation from the same stack
whose size is `8` in 32 bits is closely watched and then reallocated. -/
def sizeEvents (size : UInt64) : List AppEvent :=
  [.setWatchState .watching,
    .call (callerAt 0) ⟨0, 0⟩ (.malloc 8) 0x1000 8,
    .patrol 31 [0x1000] [],
    .call (callerAt 40) ⟨0, 0⟩ (.posix_memalign 64 size) 0x2000 4096,
    .call (callerAt 41) ⟨0, 0⟩ (.realloc 0x2000 4000) 0 0]

def smallRun : Execution Initial (AppStep .default) :=
  Execution.ofEvents (sizeEvents 8) (.setWatchState .watching) initial_start (by decide +kernel)

def largeRun : Execution Initial (AppStep .default) :=
  Execution.ofEvents (sizeEvents (2 ^ 32 + 8)) (.setWatchState .watching) initial_start
    (by decide +kernel)

theorem all_served_smallRun :
    (smallRun.state 3).Served .default (smallRun.event 3) (smallRun.state 4) ∧
      (smallRun.state 4).Served .default (smallRun.event 4) (smallRun.state 5) :=
  have hserved := all_served smallRun (by decide +kernel) (by decide +kernel)
  ⟨hserved 3 (by decide), hserved 4 (by decide)⟩

/-- The block for more than 4 GiB is one page. -/
theorem not_all_served_largeRun :
    ¬ ∀ x : Execution Initial (AppStep .default), ∀ i < x.length,
      (x.state i).Served .default (x.event i) (x.state (i + 1)) := by
  intro h
  have hserved : Serves .default (.posix_memalign 64 (2 ^ 32 + 8)) (largeRun.state 4).heap
      0x2000 := h largeRun 3 (by decide) rfl
  revert hserved
  decide +kernel

end System

end AllocCounter
