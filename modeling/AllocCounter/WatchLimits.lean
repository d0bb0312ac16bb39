import AllocCounter.Conservation

/-!
# The watch limits

A closely watched allocation starts only while the live counters are below their
limits, and the live counters count records, so neither limit is ever exceeded by
the records themselves. No bound on the number of allocations is needed: a
counter below a limit of 32 bits has room for one more.
-/
namespace AllocCounter

namespace AllocationTable

variable {env : Environment} {t t' : AllocationTable}

/-- The live counters count the records, and those are within the limits. -/
structure Limited (env : Environment) (t : AllocationTable) : Prop extends LiveCounts t where
  perTrace : ∀ w, UnorderedMap.count (PointsTo w) t.closelyWatchedAllocationsByAddress ≤
    env.maxLiveCloselyWatchedAllocationsPerTrace.toNat
  allTraces : UnorderedMap.size t.closelyWatchedAllocationsByAddress ≤
    env.globalMaxLiveCloselyWatchedAllocations.toNat

theorem limited_empty : Limited env .empty where
  toLiveCounts := liveCounts_empty
  perTrace _ := Nat.zero_le _
  allTraces := Nat.zero_le _

theorem Limited.same (h : Limited env t) (hsame : SameCounters t t') : Limited env t' where
  toLiveCounts := h.toLiveCounts.same hsame
  perTrace := hsame.watched ▸ h.perTrace
  allTraces := hsame.watched ▸ h.allTraces

/-- What a trace that needs more allocations says about its counters. -/
theorem below_limits {info : WatchedStackTraceInfo} {allTraces : UInt32}
    (h : info.needsMoreCloselyWatchedAllocations env allTraces = true) :
    info.countLiveCloselyWatchedAllocations.toNat <
        env.maxLiveCloselyWatchedAllocationsPerTrace.toNat ∧
      allTraces.toNat < env.globalMaxLiveCloselyWatchedAllocations.toNat ∧
      info.hasLeaks env ≠ .false := by
  unfold WatchedStackTraceInfo.needsMoreCloselyWatchedAllocations at h
  split_ifs at h with hlive hglobal
  refine ⟨UInt32.lt_iff_toNat_lt.mp (UInt32.not_le.mp hlive),
    UInt32.lt_iff_toNat_lt.mp (UInt32.not_le.mp hglobal), ?_⟩
  simpa using h

theorem Limited.add (h : Limited env t) {c : Caller} {fingerprint : CallstackFingerprint}
    (hwatches : Watches env t c fingerprint) {memory : Address} {alloc : CloselyWatchedAllocation}
    (hentry : alloc.watchedStackTraceInfo = ⟨fingerprint, c.stackTrace⟩)
    (hnew : t.closelyWatchedAllocationsByAddress.lookup memory = none)
    (hadd : AddsWatched t t' memory alloc) : Limited env t' := by
  have ⟨hlive, hglobal, _⟩ := below_limits hwatches.2.2
  have hmax := env.maxLiveCloselyWatchedAllocationsPerTrace.toNat_lt
  have hglobalMax := env.globalMaxLiveCloselyWatchedAllocations.toNat_lt
  have hroom : ∀ w, PointsTo w alloc → (t.info w).countLiveCloselyWatchedAllocations.toNat <
      env.maxLiveCloselyWatchedAllocationsPerTrace.toNat := by
    intro w hw
    rw [PointsTo, hentry] at hw
    exact hw ▸ hlive
  refine ⟨h.toLiveCounts.add hnew hadd (fun w hw => ?_) (by omega), fun w => ?_, ?_⟩
  · have := hroom w hw
    omega
  · rw [hadd.watched, UnorderedMap.count_insert _ hnew]
    split_ifs with hw
    · rw [← h.live]
      exact hroom w hw
    · exact h.perTrace w
  · rw [hadd.watched, UnorderedMap.size_insert hnew, ← h.global]
    exact hglobal

theorem Limited.remove (h : Limited env t) {memory : Address} {alloc : CloselyWatchedAllocation}
    {leak : Prop} [Decidable leak]
    (hold : t.closelyWatchedAllocationsByAddress.lookup memory = some alloc)
    (hremove : RemovesWatched t t' memory alloc leak) : Limited env t' := by
  refine ⟨h.toLiveCounts.remove hold hremove, fun w => ?_, ?_⟩
  · have hle := h.perTrace w
    rw [count_remove hold hremove w] at hle
    omega
  · have hle := h.allTraces
    rw [UnorderedMap.size_erase hold] at hle
    rw [hremove.watched]
    omega

theorem Limited.update (h : Limited env t) {memory : Address}
    {alloc alloc' : CloselyWatchedAllocation}
    (hold : t.closelyWatchedAllocationsByAddress.lookup memory = some alloc)
    (hentry : alloc'.watchedStackTraceInfo = alloc.watchedStackTraceInfo) :
    Limited env { t with
      closelyWatchedAllocationsByAddress :=
        t.closelyWatchedAllocationsByAddress.insert memory alloc' } := by
  have hcounts := h.toLiveCounts.update hold hentry
  refine ⟨hcounts, fun w => ?_, ?_⟩
  · exact ((hcounts.live w).symm.trans (h.live w)).trans_le (h.perTrace w)
  · exact (hcounts.global.symm.trans h.global).trans_le h.allTraces

theorem Limited.rekeyed (h : Limited env t) {oldMemory newMemory : Address}
    {alloc alloc' : CloselyWatchedAllocation}
    (hold : t.closelyWatchedAllocationsByAddress.lookup oldMemory = some alloc)
    (hnew : t.closelyWatchedAllocationsByAddress.lookup newMemory = none)
    (hentry : alloc'.watchedStackTraceInfo = alloc.watchedStackTraceInfo) :
    Limited env { t with
      closelyWatchedAllocationsByAddress :=
        rekey t.closelyWatchedAllocationsByAddress oldMemory newMemory alloc' } := by
  have ⟨hcount, hsize⟩ := rekey_spec hold hnew hentry
  exact ⟨h.toLiveCounts.rekeyed hold hnew hentry, fun w => (hcount w).trans_le (h.perTrace w),
    hsize.trans_le h.allTraces⟩

theorem Limited.visit (h : Limited env t) {key : Address} (hvisit : VisitCase t key t') :
    Limited env t' := by
  cases hvisit with
  | kept => exact h
  | moved alloc alloc' hkey hentry => exact h.update hkey hentry
  | leaked t' alloc hkey hremove => exact h.remove hkey (hremove (h.known key alloc hkey))

theorem Limited.patrol (h : Limited env t) (time : UInt64) {lightOrder : List Address}
    (watchedOrder : List Address)
    (hlight : UnorderedMap.Enumerates lightOrder t.lightAllocationsByAddress) :
    Limited env (t.patrolThreadUpdateAllocationStates env time lightOrder watchedOrder).1 :=
  foldl_patrolWatched_induction env time.toUInt32 (P := Limited env)
    (fun _ _ _ h hvisit => h.visit hvisit) watchedOrder _
    (h.same (foldl_patrolLight time.toUInt32 t hlight).1)

variable (env) in
/-- The allocation would be watched closely, but a limit is reached. -/
def Refused (t : AllocationTable) (c : Caller) (fingerprint : CallstackFingerprint) : Prop :=
  ¬ Bypasses c ∧ fingerprint ∈ t.suspiciousFingerprints ∧
    ((t.info ⟨fingerprint, c.stackTrace⟩).countLiveCloselyWatchedAllocations ≥
        env.maxLiveCloselyWatchedAllocationsPerTrace ∨
      t.countLiveCloselyWatchedAllocationsAllTraces ≥ env.globalMaxLiveCloselyWatchedAllocations)

instance (t : AllocationTable) (c : Caller) (fingerprint : CallstackFingerprint) :
    Decidable (Refused env t c fingerprint) := inferInstanceAs (Decidable (_ ∧ _ ∧ (_ ∨ _)))

/-- One allocation is counted as skipped, in one entry. -/
def SkippedOnce (t t' : AllocationTable) : Prop :=
  ∃ w, t'.Known w ∧ ∀ w', (t'.info w').countSkippedAllocations =
    (t.info w').countSkippedAllocations + if w' = w then 1 else 0

theorem Refused.not_needsMore {c : Caller} {fingerprint : CallstackFingerprint}
    (h : Refused env t c fingerprint) :
    (t.info ⟨fingerprint, c.stackTrace⟩).needsMoreCloselyWatchedAllocations env
      t.countLiveCloselyWatchedAllocationsAllTraces = false := by
  unfold WatchedStackTraceInfo.needsMoreCloselyWatchedAllocations
  cases h.2.2 with
  | inl hlive => rw [if_pos hlive]
  | inr hglobal =>
      split_ifs
      · rfl
      · rfl

theorem Refused.skipped {c : Caller} {fingerprint : CallstackFingerprint}
    (h : Refused env t c fingerprint) (size alignment : UInt32) (real : RealCall → Address)
    (zeroFill : ZeroFill) :
    SkippedOnce t
      (t.instrumentedAllocate env c size alignment fingerprint real zeroFill).table := by
  obtain ⟨traces, htraces⟩ := Finmap.mem_iff.mp h.2.1
  have hneeds := h.not_needsMore
  unfold instrumentedAllocate
  rw [if_neg h.1, htraces]
  dsimp only
  generalize hstats : ({ t with stats := _ } : AllocationTable) = t₁
  have htraces₁ : t₁.suspiciousFingerprints.lookup fingerprint = some traces := hstats ▸ htraces
  have hinfo₁ : ∀ w, t₁.info w = t.info w := fun w => hstats ▸ rfl
  have hglobal₁ : t₁.countLiveCloselyWatchedAllocationsAllTraces =
      t.countLiveCloselyWatchedAllocationsAllTraces := hstats ▸ rfl
  have ⟨hsame, _, hknown, hinfo⟩ := getOrCreate_spec t₁ c.stackTrace htraces₁
  have hsame' := getOrCreate_info t₁ c.stackTrace htraces₁
  generalize t₁.getOrCreate fingerprint traces c.stackTrace = p at *
  obtain ⟨t₂, i⟩ := p
  dsimp only at *
  rw [hinfo, hsame.global, hglobal₁, hinfo₁, hneeds, if_pos Bool.false_ne_true]
  refine ⟨⟨fingerprint, c.stackTrace⟩, known_modifyInfo _ hknown, fun w => ?_⟩
  rw [info_modifyInfo hknown, hsame', hsame', hinfo₁, hinfo₁]
  split_ifs with hw
  · rw [hw]
  · simp

end AllocationTable

namespace System

open AllocationTable

variable {env : Environment} {s s' : System}

theorem limited_step (hc : s.Consistent) (h : Limited env s.table) {e : Event}
    (hreplace : s.ReplacementSucceeds env e) (hstep : s.Step env e s') : Limited env s'.table := by
  cases e with
  | setWatchState w =>
      have hs' := (Option.some.inj hstep.2).symm
      subst hs'
      exact h
  | allocate c r answer capacity =>
      obtain ⟨-, hfresh, effects, t', hcase, rfl⟩ := step_allocate hstep
      cases hcase with
      | untracked t' call memory hsame => exact h.same hsame
      | light t' hbypass hsame => exact h.same hsame
      | watched t' call hcall hwatches hnull hlight hadd =>
          exact h.add hwatches rfl (hc.untracked_of_fresh hnull hfresh).2 hadd
  | reallocate c oldMemory newRequestedSize answer capacity =>
      obtain ⟨-, hanswer, b, o, hb, -, hcase, rfl⟩ := step_reallocate hstep
      cases hcase with
      | untracked t' hsame => exact h.same hsame
      | light t' alloc hbypass hrecord hsame => exact h.same hsame
      | replaced t' call alloc hcall hfinds hpages hsame =>
          have hreplaces : s.Replaces env c oldMemory newRequestedSize := ⟨alloc, hfinds, hpages⟩
          have hfresh : s.Fresh answer :=
            hanswer.resolve_right fun hkept => hkept.2 hreplaces
          have hnone := hc.untracked_of_fresh (hreplace hreplaces) hfresh
          refine Limited.same ?_ hsame
          exact h.rekeyed hfinds.2.2 hnone.2 rfl
      | kept t' alloc hfinds hpages hsame =>
          refine Limited.same ?_ hsame
          exact h.update hfinds.2.2 rfl
  | free c memory released answer capacity =>
      obtain ⟨-, -, -, effects, t', hcase, rfl⟩ := step_free hstep
      cases hcase with
      | null => exact h
      | untracked t' hnull hsame => exact h.same hsame
      | light t' hnull hsame => exact h.same hsame
      | watched t' alloc hnull hfinds hlight hwatched hremove =>
          exact h.remove hfinds.2.2 (hremove (h.known _ _ hfinds.2.2))
  | patrol time lightOrder watchedOrder =>
      obtain ⟨hlight, -, rfl⟩ := step_patrol hstep
      exact h.patrol time watchedOrder hlight

/-- In every state of a run with a one-way start signal, no trace has more
records than its limit, the table has no more than the global one, and an
allocation refused because of a limit is counted as skipped in one entry. -/
theorem limits_respected (x : Execution Initial (Step env)) (hway : OneWay x)
    (hreplace : ∀ i < x.length, (x.state i).ReplacementSucceeds env (x.event i)) :
    (∀ i ≤ x.length,
      (∀ w, UnorderedMap.count (PointsTo w)
          (x.state i).table.closelyWatchedAllocationsByAddress ≤
        env.maxLiveCloselyWatchedAllocationsPerTrace.toNat) ∧
      UnorderedMap.size (x.state i).table.closelyWatchedAllocationsByAddress ≤
        env.globalMaxLiveCloselyWatchedAllocations.toNat) ∧
    ∀ i < x.length, ∀ c r answer capacity, x.event i = .allocate c r answer capacity →
      Refused env (x.state i).table c r.fingerprint →
      SkippedOnce (x.state i).table (x.state (i + 1)).table := by
  have hlimited : ∀ i ≤ x.length, Limited env (x.state i).table := by
    refine x.holds_at _ ?_ fun i hi h => ?_
    · rw [x.starts.table]
      exact limited_empty
    · exact limited_step (consistent_at x hway.synced i hi.le) h (hreplace i hi) (x.steps i hi)
  refine ⟨fun i hi => ⟨(hlimited i hi).perTrace, (hlimited i hi).allTraces⟩, ?_⟩
  intro i hi c r answer capacity hevent hrefused
  have hnext := (x.steps i hi).2
  rw [hevent] at hnext
  rw [← Option.some.inj hnext]
  exact hrefused.skipped _ _ _ _

/-- One closely watched allocation for each trace. -/
def tightEnvironment : Environment :=
  { Environment.default with maxLiveCloselyWatchedAllocationsPerTrace := 1 }

/-- A light allocation outlives its time; of the two allocations that follow from
the same stack, the second one is refused. -/
def tightRun : Execution Initial (Step tightEnvironment) :=
  Execution.ofEvents
    [.setWatchState .watching,
      .allocate (callerAt 0) ⟨8, 1, 7, .unnecessary⟩ 0x1000 8,
      .patrol 31 [0x1000] [],
      .allocate (callerAt 40) ⟨8, 1, 7, .unnecessary⟩ 0x2000 4096,
      .allocate (callerAt 41) ⟨8, 1, 7, .unnecessary⟩ 0x3000 8]
    (.setWatchState .watching) initial_start (by decide +kernel)

theorem oneWay_tightRun : OneWay tightRun := by
  unfold OneWay
  decide +kernel

theorem limits_respected_tightRun :
    UnorderedMap.size (tightRun.state 5).table.closelyWatchedAllocationsByAddress ≤ 50000 ∧
      SkippedOnce (tightRun.state 4).table (tightRun.state 5).table := by
  have hlimits := limits_respected tightRun oneWay_tightRun (by decide +kernel)
  refine ⟨(hlimits.1 5 le_rfl).2, ?_⟩
  refine hlimits.2 4 (by decide) (callerAt 41) ⟨8, 1, 7, .unnecessary⟩ 0x3000 8 rfl ?_
  decide +kernel

end System

end AllocCounter
