import AllocCounter.Ownership

/-!
# The error code of `posix_memalign`

The wrapper of `alloc-counter/wrapper-malloc.cpp` with its result: the error code
that the callback fills, and the pointer that the table returns. The table may
allocate with its own `memalign`, and then the callback is not called. The block that
`std::function` allocates for the captured values is not modelled.
-/
namespace AllocCounter

namespace PosixMemalign

/-- What the real `posix_memalign` does: it stores a block and returns 0, or stores
nothing and returns an error code. -/
inductive Answer where
  | stored (block : Address) (ne_null : block ≠ 0)
  | failed (errorCode : Int32) (ne_success : errorCode ≠ 0)
deriving DecidableEq

def Answer.errorCode : Answer → Int32
  | stored _ _ => 0
  | failed errorCode _ => errorCode

/-- `pointerHolder` after the call. -/
def Answer.pointerHolder : Answer → Address
  | stored block _ => block
  | failed _ _ => 0

/-- The answers of the callback and of the table's own `memalign`. -/
def realCalls (answer : Answer) (memalign : UInt64 → UInt64 → Address) : RealCall → Address
  | .preferred => answer.pointerHolder
  | .memalign alignment size => memalign alignment size

/-- What a call returns and leaves: `memptr` is the value of `*memptr`. -/
structure Result where
  errorCode : Int32
  memptr : Address
  table : AllocationTable
  effects : List Effect
deriving DecidableEq

/-- The assignment in the callback. -/
def assigned (answer : Answer) (errorCode : Int32) : Effect → Int32
  | .real .preferred _ => answer.errorCode
  | .real (.memalign _ _) _ | .bzero _ _ | .memcpy _ _ _ => errorCode

variable (env : Environment)

def posix_memalign (t : AllocationTable) (c : Caller) (site : CallSite) (memptr : Address)
    (alignment size : UInt64) (answer : Answer) (memalign : UInt64 → UInt64 → Address) : Result :=
  let o := t.instrumentedAllocate env c size.toUInt32 alignment.toUInt32
    (makeCallstackFingerprint site size.toUInt32) (realCalls answer memalign) .unnecessary
  { errorCode := o.effects.foldl (assigned answer) 0
    memptr := if o.memory ≠ 0 then o.memory else memptr
    table := o.table
    effects := o.effects }

/-- A block that was allocated for the call has been stored. -/
def Result.Delivers (r : Result) : Prop :=
  ∃ call block, .real call block ∈ r.effects ∧ block ≠ 0 ∧ r.memptr = block

end PosixMemalign

namespace AllocationTable

variable {env : Environment} {t : AllocationTable} {c : Caller} {fingerprint : CallstackFingerprint}

/-- The real function that provides the block: the table's own for a closely
watched one. -/
def Asked (env : Environment) (t : AllocationTable) (c : Caller) (size alignment : UInt32)
    (fingerprint : CallstackFingerprint) (call : RealCall) : Prop :=
  (Watches env t c fingerprint ∧ call = watchedCall env size alignment) ∨
    (¬ Watches env t c fingerprint ∧ call = .preferred)

variable (env t c fingerprint) in
/-- An allocation makes one real call, whether or not it succeeds. -/
theorem instrumentedAllocate_asks (size alignment : UInt32) (real : RealCall → Address)
    (zeroFill : ZeroFill) :
    ∃ call filling, Asked env t c size alignment fingerprint call ∧
      (filling = [] ∨ filling = zeroFill.fill (real call) size) ∧
      (t.instrumentedAllocate env c size alignment fingerprint real zeroFill).memory = real call ∧
      (t.instrumentedAllocate env c size alignment fingerprint real zeroFill).effects =
        .real call (real call) :: filling := by
  unfold instrumentedAllocate
  by_cases hbypass : Bypasses c
  · rw [if_pos hbypass]
    exact ⟨.preferred, [], .inr ⟨fun hw => hw.1 hbypass, rfl⟩, .inl rfl, rfl, rfl⟩
  rw [if_neg hbypass]
  cases hfp : t.suspiciousFingerprints.lookup fingerprint with
  | none =>
      have hlight : ¬ Watches env t c fingerprint := fun hw => Finmap.lookup_eq_none.mp hfp hw.2.1
      refine ⟨.preferred, [], .inr ⟨hlight, rfl⟩, .inl rfl, ?_⟩
      dsimp only
      split_ifs with hnull
      · exact ⟨hnull.symm, rfl⟩
      · exact ⟨rfl, rfl⟩
  | some traces =>
      dsimp only
      generalize hstats : ({ t with stats := _ } : AllocationTable) = t₁
      have hfp₁ : t₁.suspiciousFingerprints.lookup fingerprint = some traces := hstats ▸ hfp
      have hinfo₁ : ∀ w, t₁.info w = t.info w := fun w => hstats ▸ rfl
      have hglobal₁ : t₁.countLiveCloselyWatchedAllocationsAllTraces =
        t.countLiveCloselyWatchedAllocationsAllTraces := hstats ▸ rfl
      have ⟨hcreate, _, _, hinfo⟩ := getOrCreate_spec t₁ c.stackTrace hfp₁
      rw [hinfo, hinfo₁, hcreate.global, hglobal₁]
      by_cases hmore : (t.info ⟨fingerprint, c.stackTrace⟩).needsMoreCloselyWatchedAllocations env
          t.countLiveCloselyWatchedAllocationsAllTraces = true
      · have hwatches : Watches env t c fingerprint :=
          ⟨hbypass, Finmap.mem_of_lookup_eq_some hfp, hmore⟩
        rw [if_neg (not_not.mpr hmore)]
        split_ifs with hnull
        · exact ⟨watchedCall env size alignment, [], .inl ⟨hwatches, rfl⟩, .inl rfl, hnull.symm,
            rfl⟩
        · exact ⟨watchedCall env size alignment, _, .inl ⟨hwatches, rfl⟩, .inr rfl, rfl, rfl⟩
      · rw [if_pos hmore]
        exact ⟨.preferred, [], .inr ⟨fun hw => hmore hw.2.2, rfl⟩, .inl rfl, rfl, rfl⟩

/-- An allocation that fails changes nothing that is tracked. -/
theorem instrumentedAllocate_failed {size alignment : UInt32} {real : RealCall → Address}
    {zeroFill : ZeroFill}
    (hnull : (t.instrumentedAllocate env c size alignment fingerprint real zeroFill).memory = 0) :
    (t.instrumentedAllocate env c size alignment fingerprint real
        zeroFill).table.lightAllocationsByAddress = t.lightAllocationsByAddress ∧
      SameCounters t
        (t.instrumentedAllocate env c size alignment fingerprint real zeroFill).table := by
  have hcase := instrumentedAllocate_cases env t c size alignment fingerprint real zeroFill
  generalize t.instrumentedAllocate env c size alignment fingerprint real zeroFill = o at *
  cases hcase with
  | untracked t' call memory hsame hlight => exact ⟨hlight, hsame⟩
  | light t' hbypass hsame hnot => exact absurd hnull hnot
  | watched t' call hcall hwatches hnot => exact absurd hnull hnot

end AllocationTable

namespace PosixMemalign

open AllocationTable

variable {env : Environment} {t : AllocationTable} {c : Caller} {site : CallSite}
  {memptr : Address} {alignment size : UInt64} {answer : Answer}
  {memalign : UInt64 → UInt64 → Address}

/-- The table's own `memalign` is called for the block and fails. -/
def WatchedAllocationFails (env : Environment) (t : AllocationTable) (c : Caller) (site : CallSite)
    (alignment size : UInt64) (memalign : UInt64 → UInt64 → Address) : Prop :=
  Watches env t c (makeCallstackFingerprint site size.toUInt32) ∧
    memalign (max alignment.toUInt32 env.pageSize).toUInt64
      (env.roundUpToPageMultiple size.toUInt32).toUInt64 = 0

/-- The call returns 0 exactly if it has delivered a block, and a call that
returns an error leaves `*memptr`, both address tables and the counters of the
traces. -/
def ReportsRight (env : Environment) (t : AllocationTable) (c : Caller) (site : CallSite)
    (memptr : Address) (alignment size : UInt64) (answer : Answer)
    (memalign : UInt64 → UInt64 → Address) : Prop :=
  let r := posix_memalign env t c site memptr alignment size answer memalign
  (r.errorCode = 0 ↔ r.Delivers) ∧
    (r.errorCode ≠ 0 → r.memptr = memptr ∧
      r.table.lightAllocationsByAddress = t.lightAllocationsByAddress ∧ SameCounters t r.table)

/-- The callback reports what it delivers. -/
theorem Answer.errorCode_eq_zero (answer : Answer) :
    answer.errorCode = 0 ↔ answer.pointerHolder ≠ 0 := by
  cases answer with
  | stored block h => exact iff_of_true rfl h
  | failed errorCode h => exact iff_of_false h (not_not.mpr rfl)

/-- The one real call decides about the pointer, the error code and the table. -/
theorem posix_memalign_spec (env : Environment) (t : AllocationTable) (c : Caller) (site : CallSite)
    (memptr : Address) (alignment size : UInt64) (answer : Answer)
    (memalign : UInt64 → UInt64 → Address) :
    let r := posix_memalign env t c site memptr alignment size answer memalign
    ∃ call, Asked env t c size.toUInt32 alignment.toUInt32
        (makeCallstackFingerprint site size.toUInt32) call ∧
      (r.Delivers ↔ realCalls answer memalign call ≠ 0) ∧
      r.errorCode = assigned answer 0 (.real call (realCalls answer memalign call)) ∧
      (realCalls answer memalign call = 0 → r.memptr = memptr ∧
        r.table.lightAllocationsByAddress = t.lightAllocationsByAddress ∧
        SameCounters t r.table) := by
  obtain ⟨call, filling, hasked, hfilling, hmemory, heffects⟩ :=
    t.instrumentedAllocate_asks env c (makeCallstackFingerprint site size.toUInt32) size.toUInt32
      alignment.toUInt32 (realCalls answer memalign) .unnecessary
  obtain rfl : filling = [] := hfilling.elim id id
  refine ⟨call, hasked, ?_, ?_, fun hnull => ?_⟩
  · simp only [Result.Delivers, posix_memalign, hmemory, heffects, List.mem_singleton]
    constructor
    · rintro ⟨_, block, heq, hblock, -⟩
      exact (Effect.real.inj heq).2 ▸ hblock
    · exact fun hblock => ⟨call, _, rfl, hblock, if_pos hblock⟩
  · simp only [posix_memalign, heffects]
    rfl
  · have hkept := instrumentedAllocate_failed (hmemory.trans hnull)
    exact ⟨if_neg (not_not.mpr (hmemory.trans hnull)), hkept⟩

/-- For every table and watch word, every alignment and size and every outcome of
the real allocators, `posix_memalign` reports right exactly if it is not the
table's own `memalign` that fails. -/
theorem reportsRight_iff :
    ReportsRight env t c site memptr alignment size answer memalign ↔
      ¬ WatchedAllocationFails env t c site alignment size memalign := by
  obtain ⟨call, hasked, hdelivers, herror, hkept⟩ :=
    posix_memalign_spec env t c site memptr alignment size answer memalign
  rw [ReportsRight, hdelivers]
  rcases hasked with ⟨hwatches, rfl⟩ | ⟨hlight, rfl⟩
  · -- the callback is not called, so the error code stays 0
    have hsuccess : (posix_memalign env t c site memptr alignment size answer
      memalign).errorCode = 0 := herror
    simp only [hsuccess, true_iff, ne_eq, not_true_eq_false, false_imp_iff, and_true,
      WatchedAllocationFails, hwatches, true_and]
    rfl
  · have hcallback : (posix_memalign env t c site memptr alignment size answer
      memalign).errorCode = answer.errorCode := herror
    have hholder : realCalls answer memalign .preferred = answer.pointerHolder := rfl
    rw [hholder] at hkept ⊢
    rw [hcallback]
    refine iff_of_true ⟨answer.errorCode_eq_zero, fun hfails => hkept ?_⟩ fun h => hlight h.1
    exact not_not.mp fun hblock => hfails (answer.errorCode_eq_zero.mpr hblock)

/-- After the patrol of the run the stack is suspicious. A `memalign` that fails
there is reported as success, and `*memptr` is what it was. -/
theorem not_reportsRight_keptRun :
    ¬ ∀ (x : Execution System.Initial (System.AppStep .default)), ∀ i ≤ x.length,
      ∀ c site memptr alignment size answer memalign,
        c.watchState = (x.state i).watchState → 0 < size →
        ReportsRight .default (x.state i).table c site memptr alignment size answer memalign := by
  intro h
  have hreport := (h System.keptRun 3 (by decide) (System.callerAt 40) ⟨0, 0⟩ 0x5000 16 8
    (.failed 12 (by decide)) (fun _ _ => 0) (by decide +kernel) (by decide)).1.mp
    (by decide +kernel)
  obtain ⟨call, block, hmem, hblock, -⟩ := hreport
  have heffects : (posix_memalign .default (System.keptRun.state 3).table (System.callerAt 40)
      ⟨0, 0⟩ 0x5000 16 8 (.failed 12 (by decide)) fun _ _ => 0).effects =
        [.real (.memalign 4096 4096) 0] := by decide +kernel
  rw [heffects, List.mem_singleton] at hmem
  exact hblock (Effect.real.inj hmem).2

end PosixMemalign

end AllocCounter
