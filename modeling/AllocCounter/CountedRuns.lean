import AllocCounter.TraceHistories
import Mathlib.Algebra.Group.Action.Defs
import Mathlib.Algebra.Order.BigOperators.Group.Multiset

/-!
# The histories of a run

Every state of a run keeps the counters of every entry at those of a history, so
what is true of the counters after a history is true in every state.
-/
namespace AllocCounter

namespace AllocationTable

variable {env : Environment} {t t' : AllocationTable}

/-- What a pass reports of a record. -/
def foundLeak (alloc : CloselyWatchedAllocation) : FoundLeak :=
  ⟨alloc.watchedStackTraceInfo, alloc.memory, alloc.requestedSize⟩

/-- The suspicious records past their deadline. -/
def expired (t : AllocationTable) (now : UInt32) : Multiset CloselyWatchedAllocation :=
  (UnorderedMap.values t.closelyWatchedAllocationsByAddress).filter fun alloc =>
    alloc.deadline < now ∧ alloc.state = .suspicious

/-- The expired records of an entry. -/
def share (t : AllocationTable) (now : UInt32) (w : TraceEntry) :
    Multiset CloselyWatchedAllocation :=
  (t.expired now).filter (PointsTo w)

section Shares

variable {now : UInt32} {w : TraceEntry}

theorem LiveCounts.share_le (h : LiveCounts t) :
    (t.share now w).card ≤ (t.info w).countLiveCloselyWatchedAllocations.toNat := by
  rw [h.live, UnorderedMap.count_eq_countP_values, Multiset.countP_eq_card_filter, share, expired]
  exact Multiset.card_le_card (Multiset.filter_le_filter _ (Multiset.filter_le _ _))

theorem LiveCounts.expired_le (h : LiveCounts t) :
    (t.expired now).card ≤ t.countLiveCloselyWatchedAllocationsAllTraces.toNat := by
  rw [h.global, UnorderedMap.size_eq_card_values, expired]
  exact Multiset.card_le_card (Multiset.filter_le _ _)

/-- An entry that is not there has no share. -/
theorem LiveCounts.share_eq_zero (h : LiveCounts t) (hw : ¬ t.Known w) : t.share now w = 0 := by
  have hzero : (t.share now w).card ≤ (t.info w).countLiveCloselyWatchedAllocations.toNat :=
    h.share_le
  rw [info, Option.not_isSome_iff_eq_none.mp hw] at hzero
  exact Multiset.card_eq_zero.mp (Nat.le_zero.mp hzero)

/-- A pass reports every expired record. -/
theorem coe_foundLeaks (env : Environment) (time : UInt64) {lightOrder watchedOrder : List Address}
    (hlight : UnorderedMap.Enumerates lightOrder t.lightAllocationsByAddress)
    (hwatched : UnorderedMap.Enumerates watchedOrder t.closelyWatchedAllocationsByAddress) :
    ((t.patrolThreadUpdateAllocationStates env time lightOrder watchedOrder).2.2 :
      Multiset FoundLeak) = (t.expired time.toUInt32).map foundLeak := by
  rw [(patrol_spec env t time hlight hwatched).1, expired, Multiset.map_filter_eq_filterMap]
  exact hwatched.filterMap_lookup _

theorem sum_share_le : ((t.share now w).map fun alloc => alloc.requestedSize.toNat).sum ≤
    (t.share now w).card * (2 ^ 32 - 1) := by
  rw [← smul_eq_mul, ← Multiset.card_map fun alloc => alloc.requestedSize.toNat]
  refine Multiset.sum_le_card_nsmul _ _ fun size hsize => ?_
  obtain ⟨alloc, -, rfl⟩ := Multiset.mem_map.mp hsize
  exact Nat.le_sub_one_of_lt alloc.requestedSize.toNat_lt

/-- The reported sizes of an entry are those of its share. -/
theorem coe_leakedSizes {leaks : List FoundLeak}
    (hleaks : (leaks : Multiset FoundLeak) = (t.expired now).map foundLeak) :
    (((leaks.filter fun leak => leak.stackTrace = w).map FoundLeak.size : List UInt32) :
      Multiset UInt32) = (t.share now w).map CloselyWatchedAllocation.requestedSize := by
  have hfilter : (((leaks.filter fun leak => leak.stackTrace = w) : List FoundLeak) :
      Multiset FoundLeak) = (leaks : Multiset FoundLeak).filter fun leak => leak.stackTrace = w := by
    simp
  rw [← Multiset.map_coe, hfilter, hleaks, Multiset.filter_map, Multiset.map_map]
  rfl

/-- The entries that are there change by the sizes of what is reported of them. -/
theorem Reports.info_eq {leaks : List FoundLeak} (h : Reports t t' leaks) (hw : t.Known w) :
    t'.info w = (((leaks.filter fun leak => leak.stackTrace = w).map FoundLeak.size).map
      TraceEvent.leak).foldl WatchedStackTraceInfo.handle (t.info w) := by
  obtain ⟨i, hi⟩ := Option.isSome_iff_exists.mp hw
  rw [info, h.info?, info, hi, List.map_map]
  rfl

/-- No other entry changes. -/
theorem Reports.info_eq_of_unknown {leaks : List FoundLeak} (h : Reports t t' leaks)
    (hw : ¬ t.Known w) : t'.info w = t.info w := by
  rw [info, h.info?, info, Option.not_isSome_iff_eq_none.mp hw]
  rfl

end Shares

/-- The counters are those of a history with at most `n` allocations. -/
def Recounted (n : ℕ) (stackTrace : StackTrace) (i : WatchedStackTraceInfo) : Prop :=
  ∃ h : TraceHistory, h.Valid ∧ h.skipped + h.created ≤ n ∧ i = .after stackTrace h

/-- The counters of every entry are those of a history. -/
def Recounts (n : ℕ) (t : AllocationTable) : Prop :=
  ∀ w : TraceEntry, Recounted n w.stackTrace (t.info w)

section Recounting

variable {n : ℕ} {stackTrace : StackTrace} {i : WatchedStackTraceInfo} {e : TraceEvent}

theorem Recounted.mono (h : Recounted n stackTrace i) : Recounted (n + 1) stackTrace i :=
  have ⟨events, hv, hcount, heq⟩ := h
  ⟨events, hv, Nat.le_succ_of_le hcount, heq⟩

theorem Recounted.allocates (h : Recounted n stackTrace i) (he : e = .skip ∨ e = .watch) :
    Recounted (n + 1) stackTrace (i.handle e) := by
  obtain ⟨events, hv, hcount, rfl⟩ := h
  have hlast := hv events (List.prefix_refl _)
  refine ⟨events ++ [e], hv.concat ?_, ?_, (List.foldl_concat ..).symm⟩
  · rcases he with rfl | rfl <;> simp [TraceEvent.leakedSize] <;> omega
  · rcases he with rfl | rfl <;> simp <;> omega

/-- A block that is live is freed or leaks. -/
theorem Recounted.ends (h : Recounted n stackTrace i) (hn : n < 2 ^ 32)
    (hlive : 0 < i.countLiveCloselyWatchedAllocations.toNat)
    (he : e = .free ∨ ∃ size, e = .leak size) : Recounted n stackTrace (i.handle e) := by
  obtain ⟨events, hv, hcount, rfl⟩ := h
  have htally := (TraceHistory.tallies stackTrace hv (by omega) (by omega)).live
  refine ⟨events ++ [e], hv.concat ?_, ?_, (List.foldl_concat ..).symm⟩
  · rcases he with rfl | ⟨size, rfl⟩ <;> simp [TraceEvent.leakedSize] <;> omega
  · rcases he with rfl | ⟨size, rfl⟩ <;> simpa using hcount

theorem Recounted.leaks (hn : n < 2 ^ 32) (sizes : List UInt32)
    (h : Recounted n stackTrace i)
    (hlive : sizes.length ≤ i.countLiveCloselyWatchedAllocations.toNat) :
    Recounted n stackTrace ((sizes.map .leak).foldl WatchedStackTraceInfo.handle i) := by
  induction sizes generalizing i with
  | nil => exact h
  | cons size sizes ih =>
      rw [List.length_cons] at hlive
      have hpos : 0 < i.countLiveCloselyWatchedAllocations.toNat := by omega
      refine ih (h.ends hn hpos (.inr ⟨size, rfl⟩)) ?_
      have hone := TraceHistory.toNat_sub_one hpos
      change _ ≤ (i.countLiveCloselyWatchedAllocations - 1).toNat
      omega

/-- An allocation adds one event. -/
theorem Recounts.allocates (h : Recounts n t) {entry : TraceEntry}
    (hone : HandlesOne t t' entry e) (he : e = .skip ∨ e = .watch) : Recounts (n + 1) t' := by
  intro w
  by_cases hw : w = entry
  · rw [hw, hone.self]
    exact (h entry).allocates he
  · rw [hone.other w hw]
    exact (h w).mono

theorem Recounts.frees (h : Recounts n t) (hn : n < 2 ^ 32) {entry : TraceEntry}
    (hone : HandlesOne t t' entry .free)
    (hlive : 0 < (t.info entry).countLiveCloselyWatchedAllocations.toNat) : Recounts n t' := by
  intro w
  by_cases hw : w = entry
  · rw [hw, hone.self]
    exact (h entry).ends hn hlive (.inl rfl)
  · rw [hone.other w hw]
    exact h w

theorem Recounts.patrol (h : Recounts n t) (hn : n < 2 ^ 32) (hlive : LiveCounts t) (time : UInt64)
    {lightOrder watchedOrder : List Address}
    (hlight : UnorderedMap.Enumerates lightOrder t.lightAllocationsByAddress)
    (hwatched : UnorderedMap.Enumerates watchedOrder t.closelyWatchedAllocationsByAddress) :
    Recounts n (t.patrolThreadUpdateAllocationStates env time lightOrder watchedOrder).1 := by
  intro w
  have hreports := patrol_reports env t time lightOrder watchedOrder
  by_cases hw : t.Known w
  · have hsizes := coe_leakedSizes (w := w) (coe_foundLeaks env time hlight hwatched)
    have hlength := congrArg Multiset.card hsizes
    rw [Multiset.coe_card, Multiset.card_map] at hlength
    rw [hreports.info_eq hw]
    exact (h w).leaks hn _ (hlength.trans_le hlive.share_le)
  · rw [hreports.info_eq_of_unknown hw]
    exact h w

end Recounting

/-- The leaked counters count blocks that were created and are not live, and what
they had can be counted. -/
structure Counted (t : AllocationTable) : Prop extends LiveCounts t where
  leaked_le : ∀ w, (t.info w).countLiveCloselyWatchedAllocations.toNat +
      (t.info w).countLeakedCloselyWatchedAllocations.toNat ≤
    (t.info w).countTotalCloselyWatchedAllocationsEverCreated.toNat
  memory_le : ∀ w, (t.info w).countTotalLeakedMemory.toNat ≤
    (t.info w).countLeakedCloselyWatchedAllocations.toNat * (2 ^ 32 - 1)

theorem Recounts.counted {n : ℕ} (h : Recounts n t) (hn : n < 2 ^ 32) (hlive : LiveCounts t) :
    Counted t where
  toLiveCounts := hlive
  leaked_le w := by
    obtain ⟨events, hv, hcount, heq⟩ := h w
    have htallies := TraceHistory.tallies w.stackTrace hv (by omega) (by omega)
    have hsum := htallies.live
    rw [heq, htallies.leaked, htallies.created]
    omega
  memory_le w := by
    obtain ⟨events, hv, hcount, heq⟩ := h w
    have htallies := TraceHistory.tallies w.stackTrace hv (by omega) (by omega)
    rw [heq, htallies.memory, htallies.leaked]
    exact TraceHistory.sum_leakedSizes_le events

end AllocationTable

namespace System

open AllocationTable

variable {env : Environment} {s s' : System}

/-- One step keeps the histories. -/
theorem recounts_step {e : Event} {n : ℕ} (h : Recounts n s.table) (hlive : LiveCounts s.table)
    (hn : n + (if Allocates s e then 1 else 0) < 2 ^ 32) (hstep : s.Step env e s') :
    Recounts (n + if Allocates s e then 1 else 0) s'.table := by
  have hnext := hstep.2
  cases e with
  | setWatchState w =>
      rw [← Option.some.inj hnext]
      exact h
  | allocate c r answer capacity =>
      rw [← Option.some.inj hnext]
      cases instrumentedAllocate_info env s.table c r.size.toUInt32 r.alignment.toUInt32
          r.fingerprint (fun _ => answer) r.zeroFill with
      | inl hsame =>
          intro w
          dsimp only
          rw [hsame]
          split_ifs
          · exact (h w).mono
          · exact h w
      | inr hone =>
          obtain ⟨hwatching, e, he, hone⟩ := hone
          have hallocates : Allocates s (.allocate c r answer capacity) := hwatching
          rw [if_pos hallocates]
          exact h.allocates hone he
  | reallocate c oldMemory newRequestedSize answer capacity =>
      obtain ⟨o, ho, hs'⟩ := Option.map_eq_some_iff.mp hnext
      rw [← hs']
      intro w
      dsimp only
      rw [instrumentedReallocate_info ho]
      exact h w
  | free c memory released answer capacity =>
      rw [← Option.some.inj hnext]
      cases instrumentedFree_info s.table c memory fun _ => answer with
      | inl hsame =>
          intro w
          change Recounted n _ ((s.table.instrumentedFree c memory fun _ => answer).1.info w)
          rw [hsame]
          exact h w
      | inr hone =>
          obtain ⟨alloc, halloc, hone⟩ := hone
          exact h.frees hn (hone (hlive.known memory alloc halloc)) (hlive.live_pos halloc rfl)
  | patrol time lightOrder watchedOrder =>
      obtain ⟨hlight, hwatched, rfl⟩ := step_patrol hstep
      exact h.patrol hn hlive time hlight hwatched

section Runs

variable (x : Execution Initial (Step env)) (hway : OneWay x)
  (hreplace : ∀ i < x.length, (x.state i).ReplacementSucceeds env (x.event i))
  (hcount : x.occurrences Allocates x.length < 2 ^ 32)
include hway hreplace hcount

/-- The counters in every state of a run are those of histories. -/
theorem recounts_at : ∀ i ≤ x.length, Recounts (x.occurrences Allocates i) (x.state i).table := by
  refine x.holds_at _ ?_ fun i hi h => ?_
  · rw [x.starts.table]
    exact fun w => ⟨[], fun before hb => by rw [List.prefix_nil.mp hb]; rfl, le_rfl, rfl⟩
  · have hle : x.occurrences Allocates (i + 1) ≤ x.occurrences Allocates x.length :=
      x.occurrences_mono Allocates hi
    simp only [x.occurrences_succ] at hle ⊢
    exact recounts_step h (books_at x hway hreplace hcount i hi.le).liveCounts
      (hle.trans_lt hcount) (x.steps i hi)

theorem counted_at : ∀ i ≤ x.length, Counted (x.state i).table := by
  intro i hi
  have hle : x.occurrences Allocates i ≤ x.occurrences Allocates x.length :=
    x.occurrences_mono Allocates hi
  exact (recounts_at x hway hreplace hcount i hi).counted (hle.trans_lt hcount)
    (books_at x hway hreplace hcount i hi).liveCounts

/-- The estimates of every entry with a leak are sound in every state of a run. -/
theorem soundEstimates_at : ∀ i ≤ x.length, ∀ w info, (x.state i).table.info? w = some info →
    0 < info.countLeakedCloselyWatchedAllocations.toNat → ∃ h : TraceHistory,
      SoundEstimates h info (h.skipped = 0 ∨ info.countTotalLeakedMemory = 0) := by
  intro i hi w info hinfo hleaked
  have hle : x.occurrences Allocates i ≤ x.occurrences Allocates x.length :=
    x.occurrences_mono Allocates hi
  obtain ⟨events, hv, hevents, heq⟩ := recounts_at x hway hreplace hcount i hi w
  have htallies := TraceHistory.tallies w.stackTrace hv (by omega) (by omega)
  rw [AllocationTable.info, hinfo, Option.getD_some] at heq
  rw [← heq] at htallies
  exact ⟨events, htallies.soundEstimates (by omega) (htallies.leaked ▸ hleaked)⟩

end Runs

end System

end AllocCounter
