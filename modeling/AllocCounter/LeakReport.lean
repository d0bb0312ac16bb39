import AllocCounter.Conservation
import AllocCounter.StrictWeakOrders
import Mathlib.Algebra.Order.Ring.Unbundled.Rat
import Mathlib.Data.Set.Card

/-!
# The leak report

`patrolThreadMakeLeakReport` of `alloc-counter/allocation-table.h`. The two nested
loops visit the entries of the suspicious tables in some order, classify them and
collect the leaks, which are then sorted with `>=` as the comparison. The sorting
function is a parameter.
-/
namespace AllocCounter

structure Leak where
  stackTrace : TraceEntry
  leakRatio : Option ℚ
  lostAllocationsEstimated : ℚ
  lostBytesEstimated : ℚ
deriving DecidableEq

structure LeakReport where
  ratioAllocationHasSuspiciousFingerprint : Option ℚ
  averageStackTracesPerFingerprint : Option ℚ
  ratioLeakyStacks : Option ℚ
  ratioNonLeakyStacks : Option ℚ
  ratioMaybeLeakyStats : Option ℚ
  leaks : List Leak

/-- The variables that the loops change. -/
structure ReportCounts where
  countFingerprints : UInt32 := 0
  countStacks : UInt32 := 0
  countLeakyStacks : UInt32 := 0
  countNonLeakyStacks : UInt32 := 0
  countMaybeLeakyStacks : UInt32 := 0
  leaks : List Leak := []
deriving DecidableEq

/-- The comparison that the leaks are sorted with. -/
def Leak.before (a b : Leak) : Bool := a.lostBytesEstimated ≥ b.lostBytesEstimated

/-- The leak of an entry. -/
def leakAt (w : TraceEntry) (trace : WatchedStackTraceInfo) : Leak :=
  ⟨w, trace.leakRatio, trace.lostAllocationsEstimated, trace.lostBytesEstimated⟩

/-- The fingerprints in the order in which they are visited, each with the order
of its stack traces. -/
abbrev ReportOrder := List (CallstackFingerprint × List StackTrace)

namespace AllocationTable

variable (env : Environment) (t : AllocationTable)

/-- The inner loop's visit of one key. -/
def reportTrace (fingerprint : CallstackFingerprint) (traces : SuspiciousStackTracesTable)
    (c : ReportCounts) (key : StackTrace) : ReportCounts :=
  match traces.lookup key with
  | none => c
  | some trace =>
      let c := { c with countStacks := c.countStacks + 1 }
      match trace.hasLeaks env with
      | .true =>
          { c with
            countLeakyStacks := c.countLeakyStacks + 1
            leaks := c.leaks ++ [leakAt ⟨fingerprint, key⟩ trace] }
      | .false => { c with countNonLeakyStacks := c.countNonLeakyStacks + 1 }
      | .unknown => { c with countMaybeLeakyStacks := c.countMaybeLeakyStacks + 1 }

/-- The outer loop's visit of one key. -/
def reportFingerprint (c : ReportCounts) (visit : CallstackFingerprint × List StackTrace) :
    ReportCounts :=
  match t.suspiciousFingerprints.lookup visit.1 with
  | none => c
  | some traces =>
      visit.2.foldl (reportTrace env visit.1 traces)
        { c with countFingerprints := c.countFingerprints + 1 }

def reportCounts (order : ReportOrder) : ReportCounts := order.foldl (reportFingerprint env t) {}

def patrolThreadMakeLeakReport (order : ReportOrder)
    (sort : (Leak → Leak → Bool) → List Leak → List Leak) : LeakReport :=
  let c := t.reportCounts env order
  { ratioAllocationHasSuspiciousFingerprint :=
      ratio t.stats.allocationWithSuspiciousFingerprintCount.toNat t.stats.allocationCount.toNat
    averageStackTracesPerFingerprint := ratio c.countStacks.toNat c.countFingerprints.toNat
    ratioLeakyStacks := ratio c.countLeakyStacks.toNat c.countStacks.toNat
    ratioNonLeakyStacks := ratio c.countNonLeakyStacks.toNat c.countStacks.toNat
    ratioMaybeLeakyStats := ratio c.countMaybeLeakyStacks.toNat c.countStacks.toNat
    leaks := sort Leak.before c.leaks }

/-- The order lists every fingerprint once, and every stack trace of each. -/
structure Visits (order : ReportOrder) : Prop where
  fingerprints : UnorderedMap.Enumerates (order.map Prod.fst) t.suspiciousFingerprints
  traces : ∀ visit ∈ order, ∀ traces ∈ t.suspiciousFingerprints.lookup visit.1,
    UnorderedMap.Enumerates visit.2 traces

/-- The entries of a class. -/
def classified (judgement : Trilean) : Set TraceEntry :=
  {w | ∃ i ∈ t.info? w, i.hasLeaks env = judgement}

/-- There is one leak for each leaky entry, in order; the three classes make up
the entries; and the sorting function was given what it asks for. -/
structure CompleteReport (order : ReportOrder)
    (sort : (Leak → Leak → Bool) → List Leak → List Leak) : Prop where
  nodup : ((t.patrolThreadMakeLeakReport env order sort).leaks.map Leak.stackTrace).Nodup
  mem_iff : ∀ leak, leak ∈ (t.patrolThreadMakeLeakReport env order sort).leaks ↔
    ∃ w, ∃ i ∈ t.info? w, i.hasLeaks env = .true ∧ leak = leakAt w i
  sorted : (t.patrolThreadMakeLeakReport env order sort).leaks.Pairwise fun a b =>
    a.lostBytesEstimated ≥ b.lostBytesEstimated
  counts : (t.reportCounts env order).countLeakyStacks.toNat +
      (t.reportCounts env order).countNonLeakyStacks.toNat +
      (t.reportCounts env order).countMaybeLeakyStacks.toNat = Set.ncard {w | t.Known w}
  comparison : StrictWeakOn Leak.before (t.reportCounts env order).leaks

/-- The entries in the order in which they are visited. -/
def entries (order : ReportOrder) : List TraceEntry :=
  order.flatMap fun visit => visit.2.map (TraceEntry.mk visit.1)

/-- The leak that an entry adds. -/
def leak? (w : TraceEntry) : Option Leak :=
  (t.info? w).bind fun i => if i.hasLeaks env = .true then some (leakAt w i) else none

def judged (judgement : Trilean) (w : TraceEntry) : Bool :=
  (t.info? w).any fun i => i.hasLeaks env = judgement

/-- The variables after the visits of some entries. -/
structure Counts (visited : List TraceEntry) (c : ReportCounts) : Prop where
  total : c.countStacks = UInt32.ofNat visited.length
  leaky : c.countLeakyStacks = UInt32.ofNat (visited.countP (t.judged env .true))
  nonLeaky : c.countNonLeakyStacks = UInt32.ofNat (visited.countP (t.judged env .false))
  maybeLeaky : c.countMaybeLeakyStacks = UInt32.ofNat (visited.countP (t.judged env .unknown))
  leaks : c.leaks = visited.filterMap (t.leak? env)

variable {env t}

theorem Visits.mem_entries {order : ReportOrder} (h : t.Visits order) (w : TraceEntry) :
    w ∈ entries order ↔ t.Known w := by
  simp only [entries, List.mem_flatMap, List.mem_map]
  constructor
  · rintro ⟨visit, hvisit, trace, htrace, rfl⟩
    obtain ⟨traces, htraces⟩ := Finmap.mem_iff.mp
      ((h.fingerprints.mem_iff visit.1).mp (List.mem_map_of_mem hvisit))
    obtain ⟨i, hi⟩ := Finmap.mem_iff.mp
      (((h.traces visit hvisit traces htraces).mem_iff trace).mp htrace)
    simp [Known, info?, htraces, hi]
  · intro hknown
    obtain ⟨i, hi⟩ := Option.isSome_iff_exists.mp hknown
    obtain ⟨traces, htraces, htrace⟩ := Option.bind_eq_some_iff.mp hi
    obtain ⟨visit, hvisit, hfingerprint⟩ := List.mem_map.mp
      ((h.fingerprints.mem_iff w.fingerprint).mpr (Finmap.mem_of_lookup_eq_some htraces))
    rw [← hfingerprint] at htraces
    refine ⟨visit, hvisit, w.stackTrace, ?_, by rw [hfingerprint]⟩
    exact ((h.traces visit hvisit traces htraces).mem_iff _).mpr
      (Finmap.mem_of_lookup_eq_some htrace)

theorem Visits.nodup_entries {order : ReportOrder} (h : t.Visits order) :
    (entries order).Nodup := by
  rw [entries, List.nodup_flatMap]
  constructor
  · intro visit hvisit
    obtain ⟨traces, htraces⟩ := Finmap.mem_iff.mp
      ((h.fingerprints.mem_iff visit.1).mp (List.mem_map_of_mem hvisit))
    exact (h.traces visit hvisit traces htraces).nodup.map fun _ _ heq =>
      congrArg TraceEntry.stackTrace heq
  · refine (List.pairwise_map.mp h.fingerprints.nodup).imp fun hne w hw hw' => ?_
    obtain ⟨_, -, rfl⟩ := List.mem_map.mp hw
    obtain ⟨_, -, heq⟩ := List.mem_map.mp hw'
    exact hne (congrArg TraceEntry.fingerprint heq).symm

theorem Counts.visit {visited : List TraceEntry} {c : ReportCounts} (h : t.Counts env visited c)
    {w : TraceEntry} {traces : SuspiciousStackTracesTable}
    (htraces : t.suspiciousFingerprints.lookup w.fingerprint = some traces)
    (hw : w.stackTrace ∈ traces) :
    t.Counts env (visited ++ [w]) (reportTrace env w.fingerprint traces c w.stackTrace) := by
  obtain ⟨i, hi⟩ := Finmap.mem_iff.mp hw
  have hinfo : t.info? w = some i := by simp [info?, htraces, hi]
  unfold reportTrace
  rw [hi]
  cases hjudged : i.hasLeaks env <;> constructor <;>
    simp [h.total, h.leaky, h.nonLeaky, h.maybeLeaky, h.leaks, judged, leak?, hinfo, hjudged,
      List.countP_append, UInt32.ofNat_add]

theorem Counts.visitAll {visited : List TraceEntry} {c : ReportCounts}
    (h : t.Counts env visited c) {visit : CallstackFingerprint × List StackTrace}
    {traces : SuspiciousStackTracesTable}
    (htraces : t.suspiciousFingerprints.lookup visit.1 = some traces)
    (hall : ∀ trace ∈ visit.2, trace ∈ traces) :
    t.Counts env (visited ++ visit.2.map (TraceEntry.mk visit.1))
      (visit.2.foldl (reportTrace env visit.1 traces) c) := by
  obtain ⟨fingerprint, order⟩ := visit
  dsimp only at *
  induction order generalizing visited c with
  | nil => simpa using h
  | cons trace order ih =>
      have hvisit := h.visit (w := ⟨fingerprint, trace⟩) htraces (hall trace List.mem_cons_self)
      have hrest := ih hvisit fun s hs => hall s (List.mem_cons_of_mem _ hs)
      rwa [List.append_assoc] at hrest

theorem counts_reportCounts {order : ReportOrder} (h : t.Visits order) :
    t.Counts env (entries order) (t.reportCounts env order) := by
  suffices hgen : ∀ (rest : ReportOrder), (∀ visit ∈ rest, visit ∈ order) →
      ∀ visited c, t.Counts env visited c →
        t.Counts env (visited ++ entries rest) (rest.foldl (reportFingerprint env t) c) from
    hgen order (fun _ hv => hv) [] {} ⟨rfl, rfl, rfl, rfl, rfl⟩
  intro rest
  induction rest with
  | nil => simp [entries]
  | cons visit rest ih =>
      intro hsub visited c hc
      have hvisit := hsub visit List.mem_cons_self
      obtain ⟨traces, htraces⟩ := Finmap.mem_iff.mp
        ((h.fingerprints.mem_iff visit.1).mp (List.mem_map_of_mem hvisit))
      have hstart : t.Counts env visited { c with countFingerprints := c.countFingerprints + 1 } :=
        ⟨hc.total, hc.leaky, hc.nonLeaky, hc.maybeLeaky, hc.leaks⟩
      have hnext := hstart.visitAll htraces fun trace htrace =>
        ((h.traces visit hvisit traces htraces).mem_iff trace).mp htrace
      have hrest := ih (fun v hv => hsub v (List.mem_cons_of_mem _ hv)) _ _ hnext
      rw [List.append_assoc] at hrest
      rw [List.foldl_cons, reportFingerprint, htraces]
      exact hrest

/-- Counting a set along a list that visits it once. -/
theorem ncard_eq_countP {α : Type*} [DecidableEq α] {l : List α} (hl : l.Nodup) (p : α → Bool)
    {s : Set α} (hs : ∀ a, a ∈ s ↔ a ∈ l ∧ p a) : s.ncard = l.countP p := by
  have heq : s = ((l.filter p).toFinset : Set α) := by
    ext a
    simp [hs]
  rw [heq, Set.ncard_coe_finset, List.toFinset_card_of_nodup (hl.filter p),
    List.countP_eq_length_filter]

theorem judged_iff {judgement : Trilean} {w : TraceEntry} :
    t.judged env judgement w ↔ ∃ i ∈ t.info? w, i.hasLeaks env = judgement := by
  simp [judged, Option.any_eq_true]

theorem known_of_judged {judgement : Trilean} {w : TraceEntry} (h : t.judged env judgement w) :
    t.Known w := by
  obtain ⟨i, hi, -⟩ := judged_iff.mp h
  exact Option.isSome_iff_exists.mpr ⟨i, hi⟩

/-- Every entry is in one class. -/
theorem countP_judged {visited : List TraceEntry} (h : ∀ w ∈ visited, t.Known w) :
    visited.countP (t.judged env .true) + visited.countP (t.judged env .false) +
      visited.countP (t.judged env .unknown) = visited.length := by
  induction visited with
  | nil => rfl
  | cons w visited ih =>
      have hrest := ih fun v hv => h v (List.mem_cons_of_mem _ hv)
      obtain ⟨i, hi⟩ := Option.isSome_iff_exists.mp (h w List.mem_cons_self)
      have hone : ∀ judgement, t.judged env judgement w = decide (i.hasLeaks env = judgement) := by
        intro judgement
        simp [judged, hi]
      simp only [List.countP_cons, List.length_cons, hone, decide_eq_true_eq]
      cases i.hasLeaks env <;> simp <;> omega

section Report

variable {order : ReportOrder} (h : t.Visits order)
include h

theorem Visits.ncard_known : Set.ncard {w | t.Known w} = (entries order).length := by
  rw [ncard_eq_countP h.nodup_entries (fun _ => true), List.countP_true]
  intro w
  rw [h.mem_entries]
  exact (and_iff_left rfl).symm

theorem Visits.ncard_classified (judgement : Trilean) :
    Set.ncard (t.classified env judgement) = (entries order).countP (t.judged env judgement) := by
  refine ncard_eq_countP h.nodup_entries _ fun w => ?_
  rw [h.mem_entries]
  exact ⟨fun hw => ⟨known_of_judged (judged_iff.mpr hw), judged_iff.mpr hw⟩,
    fun hw => judged_iff.mp hw.2⟩

/-- The loops collect one leak for each leaky entry. -/
theorem Visits.mem_leaks (leak : Leak) : leak ∈ (t.reportCounts env order).leaks ↔
    ∃ w, ∃ i ∈ t.info? w, i.hasLeaks env = .true ∧ leak = leakAt w i := by
  rw [(counts_reportCounts h).leaks, List.mem_filterMap]
  constructor
  · intro ⟨w, _, hleak⟩
    obtain ⟨i, hi, hif⟩ := Option.bind_eq_some_iff.mp hleak
    split_ifs at hif with htrue
    exact ⟨w, i, hi, htrue, (Option.some.inj hif).symm⟩
  · rintro ⟨w, i, hi, htrue, rfl⟩
    have hi' : t.info? w = some i := hi
    refine ⟨w, (h.mem_entries w).mpr (Option.isSome_iff_exists.mpr ⟨i, hi⟩), ?_⟩
    simp [leak?, hi', htrue]

/-- The comparison is not strict, so the report is complete only if there is
nothing to sort. -/
theorem completeReport_iff {sort : (Leak → Leak → Bool) → List Leak → List Leak}
    (hsort : Sorts sort) :
    t.CompleteReport env order sort ↔ t.classified env .true = ∅ ∧
      (t.classified env .false).ncard < 2 ^ 32 ∧ (t.classified env .unknown).ncard < 2 ^ 32 := by
  have hcounts : t.Counts env (entries order) (t.reportCounts env order) := counts_reportCounts h
  have hsum : (entries order).countP (t.judged env .true) +
      (entries order).countP (t.judged env .false) +
      (entries order).countP (t.judged env .unknown) = (entries order).length :=
    countP_judged fun w hw => (h.mem_entries w).mp hw
  have hempty : (t.reportCounts env order).leaks = [] ↔ t.classified env .true = ∅ := by
    rw [List.eq_nil_iff_forall_not_mem, Set.eq_empty_iff_forall_notMem]
    simp only [h.mem_leaks, classified, Set.mem_ofPred_eq]
    constructor
    · exact fun hnone w ⟨i, hi, htrue⟩ => hnone _ ⟨w, i, hi, htrue, rfl⟩
    · exact fun hnone leak ⟨w, i, hi, htrue, _⟩ => hnone w ⟨i, hi, htrue⟩
  have hnoleak : t.classified env .true = ∅ → (entries order).countP (t.judged env .true) = 0 := by
    intro hnone
    rw [← h.ncard_classified, hnone, Set.ncard_empty]
  constructor
  · intro hcomplete
    have hnil := hempty.mp ((strictWeakOn_ge_iff Leak.lostBytesEstimated).mp hcomplete.comparison)
    have htotal := hcomplete.counts
    rw [hcounts.leaky, hcounts.nonLeaky, hcounts.maybeLeaky, h.ncard_known, ← hsum,
      UInt32.toNat_ofNat', UInt32.toNat_ofNat', UInt32.toNat_ofNat', hnoleak hnil] at htotal
    rw [h.ncard_classified, h.ncard_classified]
    exact ⟨hnil, by omega, by omega⟩
  · intro ⟨hnil, hfalse, hunknown⟩
    have hleaks := hempty.mpr hnil
    have hcomparison : StrictWeakOn Leak.before (t.reportCounts env order).leaks :=
      (strictWeakOn_ge_iff Leak.lostBytesEstimated).mpr hleaks
    obtain ⟨hperm, -⟩ := hsort _ _ hcomparison
    have hsorted : (t.patrolThreadMakeLeakReport env order sort).leaks = [] := by
      rw [hleaks] at hperm
      simp only [patrolThreadMakeLeakReport, hleaks]
      exact hperm.eq_nil
    rw [h.ncard_classified] at hfalse hunknown
    refine ⟨by simp [hsorted], fun leak => ?_, by simp [hsorted], ?_, hcomparison⟩
    · rw [hsorted, ← hleaks, h.mem_leaks]
    · rw [hcounts.leaky, hcounts.nonLeaky, hcounts.maybeLeaky, h.ncard_known, ← hsum,
        UInt32.toNat_ofNat', UInt32.toNat_ofNat', UInt32.toNat_ofNat', hnoleak hnil,
        Nat.mod_eq_of_lt hfalse, Nat.mod_eq_of_lt hunknown, Nat.zero_mod]

end Report

end AllocationTable

namespace System

open AllocationTable

def leakOrder : ReportOrder := [(7, [⟨[1]⟩])]

/-- Before the leak is found, its stack trace may still be leaky. -/
theorem completeReport_iff_leakRun :
    (leakRun.state 7).table.CompleteReport .default leakOrder
        (fun lt l => l.insertionSort fun a b => lt b a = false) ↔
      (leakRun.state 7).table.classified .default .true = ∅ ∧
        ((leakRun.state 7).table.classified .default .false).ncard < 2 ^ 32 ∧
        ((leakRun.state 7).table.classified .default .unknown).ncard < 2 ^ 32 :=
  completeReport_iff ⟨by decide +kernel, by decide +kernel⟩ sorts_insertionSort

/-- When the leak is found, the comparison is not strict on it. -/
theorem not_completeReport_leakRun :
    (leakRun.state 8).table.Visits leakOrder ∧
      ((leakRun.state 8).table.reportCounts .default leakOrder).leaks =
        [⟨leakEntry, some (1 / 2), 1, 8⟩] ∧
      ¬ (leakRun.state 8).table.CompleteReport .default leakOrder
        fun lt l => l.insertionSort fun a b => lt b a = false := by
  have hleaks : ((leakRun.state 8).table.reportCounts .default leakOrder).leaks =
      [⟨leakEntry, some (1 / 2), 1, 8⟩] := by decide +kernel
  refine ⟨⟨by decide +kernel, by decide +kernel⟩, hleaks, fun hcomplete => ?_⟩
  have hcomparison := hcomplete.comparison
  rw [hleaks] at hcomparison
  exact absurd (hcomparison.irrefl _ List.mem_cons_self) (by decide +kernel)

end System

end AllocCounter
