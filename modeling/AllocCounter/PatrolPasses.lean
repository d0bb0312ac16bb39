import AllocCounter.CountedRuns
import AllocCounter.Overstayers

/-!
# Whole patrol passes

A pass decides every record by what it was before the pass, so the order in which
the maps are visited only shows in the order of the reported leaks.
-/
namespace AllocCounter

namespace AllocationTable

variable {env : Environment} {t t' : AllocationTable}

/-- The counters of an entry change by its share. -/
structure LosesShare (i i' : WatchedStackTraceInfo) (lost : Multiset CloselyWatchedAllocation) :
    Prop where
  stackTrace : i'.stackTrace = i.stackTrace
  created : i'.countTotalCloselyWatchedAllocationsEverCreated =
    i.countTotalCloselyWatchedAllocationsEverCreated
  skipped : i'.countSkippedAllocations = i.countSkippedAllocations
  live : i'.countLiveCloselyWatchedAllocations.toNat + lost.card =
    i.countLiveCloselyWatchedAllocations.toNat
  leaked : i'.countLeakedCloselyWatchedAllocations.toNat =
    i.countLeakedCloselyWatchedAllocations.toNat + lost.card
  memory : i'.countTotalLeakedMemory.toNat = i.countTotalLeakedMemory.toNat +
    (lost.map fun alloc => alloc.requestedSize.toNat).sum

/-- What a pass at `now` makes of the table and reports. -/
structure Pass (env : Environment) (t : AllocationTable) (now : UInt32)
    (result : AllocationTable × AllocationStats × List FoundLeak) : Prop where
  light : ∀ a alloc, result.1.lightAllocationsByAddress.lookup a = some alloc ↔
    t.lightAllocationsByAddress.lookup a = some alloc ∧ now ≤ alloc.deadline
  suspicious : ∀ f, f ∈ result.1.suspiciousFingerprints ↔ f ∈ t.suspiciousFingerprints ∨
    ∃ a alloc, t.lightAllocationsByAddress.lookup a = some alloc ∧ alloc.fingerprint = f ∧
      alloc.deadline < now
  known : ∀ w, result.1.Known w ↔ t.Known w
  entries : ∀ w, LosesShare (t.info w) (result.1.info w) (t.share now w)
  watched : ∀ a alloc', result.1.closelyWatchedAllocationsByAddress.lookup a = some alloc' ↔
    ∃ alloc, t.closelyWatchedAllocationsByAddress.lookup a = some alloc ∧
      (now ≤ alloc.deadline ∧ alloc' = alloc ∨
        alloc.deadline < now ∧ alloc.state = .notYetSuspicious ∧ ∃ deadline : UInt32,
          deadline.toNat = now.toNat + env.closelyWatchedAllocationsAccessMaxInterval.toNat ∧
          alloc' = { alloc with
            state := .suspicious
            deadline := deadline })
  leaks : (result.2.2 : Multiset FoundLeak) = (t.expired now).map foundLeak
  global : result.1.countLiveCloselyWatchedAllocationsAllTraces.toNat + (t.expired now).card =
    t.countLiveCloselyWatchedAllocationsAllTraces.toNat
  stats : result.1.stats = t.stats ∧ result.2.1 = t.stats

theorem toNat_sub_ofNat {x : UInt32} {n : ℕ} (h : n ≤ x.toNat) :
    (x - UInt32.ofNat n).toNat + n = x.toNat := by
  have hx := x.toNat_lt
  rw [UInt32.toNat_sub, UInt32.toNat_ofNat']
  omega

theorem toNat_add_ofNat {x : UInt32} {n : ℕ} (h : x.toNat + n < 2 ^ 32) :
    (x + UInt32.ofNat n).toNat = x.toNat + n := by
  rw [UInt32.toNat_add, UInt32.toNat_ofNat']
  omega

section Shares

variable {now : UInt32} {w : TraceEntry}

/-- The reports of a pass change the counters of an entry by its share. -/
theorem Reports.losesShare {leaks : List FoundLeak} (h : Reports t t' leaks)
    (hleaks : (leaks : Multiset FoundLeak) = (t.expired now).map foundLeak) (hcounted : Counted t)
    (w : TraceEntry) : LosesShare (t.info w) (t'.info w) (t.share now w) := by
  by_cases hw : t.Known w
  · have hsizes := coe_leakedSizes (w := w) hleaks
    have hlength := congrArg Multiset.card hsizes
    have hsum := congrArg (fun s => (s.map UInt32.toNat).sum) hsizes
    rw [Multiset.coe_card, Multiset.card_map] at hlength
    simp only [Multiset.map_coe, Multiset.sum_coe, Multiset.map_map, Function.comp_def] at hsum
    rw [h.info_eq hw, WatchedStackTraceInfo.foldl_leaks, hlength, hsum]
    have hlive : (t.share now w).card ≤ (t.info w).countLiveCloselyWatchedAllocations.toNat :=
      hcounted.share_le
    have hleaked := hcounted.leaked_le w
    have hcreated := (t.info w).countTotalCloselyWatchedAllocationsEverCreated.toNat_lt
    have hmemory := hcounted.memory_le w
    have hbytes : ((t.share now w).map fun alloc => alloc.requestedSize.toNat).sum ≤
        (t.share now w).card * (2 ^ 32 - 1) := sum_share_le
    refine ⟨rfl, rfl, rfl, toNat_sub_ofNat hlive, toNat_add_ofNat (by omega), ?_⟩
    rw [UInt64.toNat_add, UInt64.toNat_ofNat', Nat.mod_eq_of_lt, Nat.mod_eq_of_lt] <;> omega
  · rw [h.info_eq_of_unknown hw, hcounted.share_eq_zero hw]
    exact ⟨rfl, rfl, rfl, rfl, rfl, rfl⟩

end Shares

theorem lightAfter_eq_some {now : UInt32} {old : Option LightAllocation} {alloc : LightAllocation} :
    lightAfter now old = some alloc ↔ old = some alloc ∧ now ≤ alloc.deadline := by
  cases old with
  | none => simp [lightAfter]
  | some old =>
      simp only [lightAfter, Option.bind_some, Option.some.injEq]
      split_ifs with hdeadline
      · simp only [false_iff, not_and, UInt32.not_le]
        exact fun heq => heq ▸ hdeadline
      · simp only [Option.some.injEq, iff_self_and]
        exact fun heq => heq ▸ UInt32.not_lt.mp hdeadline

theorem watchedAfter_eq_some {now : UInt32} {old : Option CloselyWatchedAllocation}
    {alloc' : CloselyWatchedAllocation} (hfits : now.toNat +
      env.closelyWatchedAllocationsAccessMaxInterval.toNat < 2 ^ 32) :
    watchedAfter env now old = some alloc' ↔ ∃ alloc, old = some alloc ∧
      (now ≤ alloc.deadline ∧ alloc' = alloc ∨
        alloc.deadline < now ∧ alloc.state = .notYetSuspicious ∧ ∃ deadline : UInt32,
          deadline.toNat = now.toNat + env.closelyWatchedAllocationsAccessMaxInterval.toNat ∧
          alloc' = { alloc with
            state := .suspicious
            deadline := deadline }) := by
  cases old with
  | none => simp [watchedAfter]
  | some alloc =>
      have hsum : (now + env.closelyWatchedAllocationsAccessMaxInterval).toNat =
          now.toNat + env.closelyWatchedAllocationsAccessMaxInterval.toNat := by
        rw [UInt32.toNat_add, Nat.mod_eq_of_lt hfits]
      simp only [watchedAfter, Option.bind_some, Option.some.injEq, exists_eq_left']
      by_cases hdeadline : alloc.deadline < now
      · have hnot : ¬ now ≤ alloc.deadline := UInt32.not_le.mpr hdeadline
        cases hstate : alloc.state with
        | notYetSuspicious =>
            simp only [hdeadline, hnot, if_true, false_and, true_and, false_or, Option.some.injEq]
            constructor
            · exact fun heq => ⟨_, hsum, heq.symm⟩
            · rintro ⟨deadline, hnat, heq⟩
              rw [heq, UInt32.toNat_inj.mp (hnat.trans hsum.symm)]
        | suspicious => simp [hdeadline, hnot]
      · simp [hdeadline, UInt32.not_lt.mp hdeadline, eq_comm]

section Passes

variable {time : UInt64} {lightOrder watchedOrder : List Address} (hcounted : Counted t)
  (hfits : time.toUInt32.toNat + env.closelyWatchedAllocationsAccessMaxInterval.toNat < 2 ^ 32)
  (hlight : UnorderedMap.Enumerates lightOrder t.lightAllocationsByAddress)
  (hwatched : UnorderedMap.Enumerates watchedOrder t.closelyWatchedAllocationsByAddress)
include hcounted hfits hlight hwatched

theorem Counted.pass : Pass env t time.toUInt32
    (t.patrolThreadUpdateAllocationStates env time lightOrder watchedOrder) := by
  have hspec := (patrol_spec env t time hlight hwatched).2
  have hreports := patrol_reports env t time lightOrder watchedOrder
  have hleaks := coe_foundLeaks env time hlight hwatched
  refine ⟨fun a alloc => ?_, fun f => ?_, fun w => ?_, fun w => hreports.losesShare hleaks hcounted w,
    fun a alloc => ?_, hleaks, ?_, hreports.stats, hreports.stats⟩
  · rw [(hspec a).1, lightAfter_eq_some]
  · refine (mem_foldl_patrolWatched _ _ _ f).trans
      ((mem_foldl_patrolLight time.toUInt32 hlight.nodup t f).trans (or_congr_right ?_))
    refine exists_congr fun key => ⟨fun h => h.2, fun h => ⟨?_, h⟩⟩
    obtain ⟨alloc, halloc, -⟩ := h
    exact (hlight.mem_iff key).mpr (Finmap.mem_of_lookup_eq_some halloc)
  · rw [Known, hreports.info?, Option.isSome_map, Known]
  · rw [(hspec a).2, watchedAfter_eq_some hfits]
  · have hlength := congrArg Multiset.card hleaks
    rw [Multiset.coe_card, Multiset.card_map] at hlength
    rw [hreports.global, hlength]
    exact toNat_sub_ofNat hcounted.expired_le

end Passes

theorem LosesShare.unique {i i₁ i₂ : WatchedStackTraceInfo}
    {lost : Multiset CloselyWatchedAllocation} (h₁ : LosesShare i i₁ lost)
    (h₂ : LosesShare i i₂ lost) : i₁ = i₂ := by
  obtain ⟨_, _, _, _, _, _⟩ := i₁
  obtain ⟨_, _, _, _, _, _⟩ := i₂
  have hlive := Nat.add_right_cancel (h₁.live.trans h₂.live.symm)
  rw [WatchedStackTraceInfo.mk.injEq]
  exact ⟨h₁.stackTrace.trans h₂.stackTrace.symm, h₁.created.trans h₂.created.symm,
    UInt32.toNat_inj.mp hlive, UInt32.toNat_inj.mp (h₁.leaked.trans h₂.leaked.symm),
    UInt64.toNat_inj.mp (h₁.memory.trans h₂.memory.symm), h₁.skipped.trans h₂.skipped.symm⟩

/-- The suspicious tables are their fingerprints and their entries. -/
theorem suspiciousFingerprints_ext
    (hmem : ∀ f, f ∈ t.suspiciousFingerprints ↔ f ∈ t'.suspiciousFingerprints)
    (hinfo : ∀ w, t.info? w = t'.info? w) :
    t.suspiciousFingerprints = t'.suspiciousFingerprints := by
  apply Finmap.ext_lookup
  intro f
  by_cases hf : f ∈ t.suspiciousFingerprints
  · obtain ⟨traces, htraces⟩ := Finmap.mem_iff.mp hf
    obtain ⟨traces', htraces'⟩ := Finmap.mem_iff.mp ((hmem f).mp hf)
    rw [htraces, htraces', Option.some.injEq]
    apply Finmap.ext_lookup
    intro stackTrace
    simpa [info?, htraces, htraces'] using hinfo ⟨f, stackTrace⟩
  · rw [Finmap.lookup_eq_none.mpr hf, Finmap.lookup_eq_none.mpr fun hf' => hf ((hmem f).mpr hf')]

theorem Known.info?_eq {w : TraceEntry} (h : t.Known w) : t.info? w = some (t.info w) := by
  obtain ⟨i, hi⟩ := Option.isSome_iff_exists.mp h
  rw [info, hi]
  rfl

theorem Pass.unique {now : UInt32}
    {result₁ result₂ : AllocationTable × AllocationStats × List FoundLeak}
    (h₁ : Pass env t now result₁) (h₂ : Pass env t now result₂) :
    result₁.1 = result₂.1 ∧ result₁.2.1 = result₂.2.1 ∧ result₁.2.2.Perm result₂.2.2 := by
  have hlight : result₁.1.lightAllocationsByAddress = result₂.1.lightAllocationsByAddress :=
    Finmap.ext_lookup fun a => Option.ext fun alloc =>
      (h₁.light a alloc).trans (h₂.light a alloc).symm
  have hwatched : result₁.1.closelyWatchedAllocationsByAddress =
      result₂.1.closelyWatchedAllocationsByAddress :=
    Finmap.ext_lookup fun a => Option.ext fun alloc =>
      (h₁.watched a alloc).trans (h₂.watched a alloc).symm
  have hinfo : ∀ w, result₁.1.info? w = result₂.1.info? w := by
    intro w
    by_cases hw : t.Known w
    · rw [((h₁.known w).mpr hw).info?_eq, ((h₂.known w).mpr hw).info?_eq,
        (h₁.entries w).unique (h₂.entries w)]
    · rw [Option.not_isSome_iff_eq_none.mp fun hw₁ => hw ((h₁.known w).mp hw₁),
        Option.not_isSome_iff_eq_none.mp fun hw₂ => hw ((h₂.known w).mp hw₂)]
  have hsuspicious := suspiciousFingerprints_ext
    (fun f => (h₁.suspicious f).trans (h₂.suspicious f).symm) hinfo
  have hglobal := UInt32.toNat_inj.mp
    (Nat.add_right_cancel (h₁.global.trans h₂.global.symm))
  have hstats := h₁.stats.1.trans h₂.stats.1.symm
  refine ⟨?_, h₁.stats.2.trans h₂.stats.2.symm,
    Multiset.coe_eq_coe.mp (h₁.leaks.trans h₂.leaks.symm)⟩
  obtain ⟨⟨_, _, _, _, _⟩, _⟩ := result₁
  obtain ⟨⟨_, _, _, _, _⟩, _⟩ := result₂
  rw [AllocationTable.mk.injEq]
  exact ⟨hlight, hwatched, hsuspicious, hstats, hglobal⟩

/-- Whatever the order in which the maps are visited, the pass handles every
expired record once, and two orders only differ in the order of the leaks. -/
structure HandlesExpiredOnce (env : Environment) (t : AllocationTable) (time : UInt64) : Prop where
  pass : ∀ lightOrder watchedOrder,
    UnorderedMap.Enumerates lightOrder t.lightAllocationsByAddress →
    UnorderedMap.Enumerates watchedOrder t.closelyWatchedAllocationsByAddress →
    Pass env t time.toUInt32
      (t.patrolThreadUpdateAllocationStates env time lightOrder watchedOrder)
  same : ∀ lightOrder watchedOrder lightOrder' watchedOrder',
    UnorderedMap.Enumerates lightOrder t.lightAllocationsByAddress →
    UnorderedMap.Enumerates watchedOrder t.closelyWatchedAllocationsByAddress →
    UnorderedMap.Enumerates lightOrder' t.lightAllocationsByAddress →
    UnorderedMap.Enumerates watchedOrder' t.closelyWatchedAllocationsByAddress →
    (t.patrolThreadUpdateAllocationStates env time lightOrder watchedOrder).1 =
        (t.patrolThreadUpdateAllocationStates env time lightOrder' watchedOrder').1 ∧
      (t.patrolThreadUpdateAllocationStates env time lightOrder watchedOrder).2.1 =
        (t.patrolThreadUpdateAllocationStates env time lightOrder' watchedOrder').2.1 ∧
      (t.patrolThreadUpdateAllocationStates env time lightOrder watchedOrder).2.2.Perm
        (t.patrolThreadUpdateAllocationStates env time lightOrder' watchedOrder').2.2

/-- Every pass over a table whose counters agree with its records, and at a time
from which the next deadline fits, handles every expired record once. -/
theorem handlesExpiredOnce (t : AllocationTable) (time : UInt64) (hcounted : Counted t)
    (hfits : time.toUInt32.toNat + env.closelyWatchedAllocationsAccessMaxInterval.toNat < 2 ^ 32) :
    HandlesExpiredOnce env t time where
  pass _ _ hlight hwatched := hcounted.pass hfits hlight hwatched
  same _ _ _ _ hlight hwatched hlight' hwatched' :=
    (hcounted.pass hfits hlight hwatched).unique (hcounted.pass hfits hlight' hwatched')

end AllocationTable

namespace System

open AllocationTable

/-- The pass that finds the leak. -/
theorem handlesExpiredOnce_leakRun : HandlesExpiredOnce .default (leakRun.state 7).table 73 :=
  handlesExpiredOnce (leakRun.state 7).table 73
    (counted_at leakRun oneWay_leakRun (by decide +kernel) (by decide +kernel) 7 (by decide))
    (by decide)

end System

end AllocCounter
