import AllocCounter.WatchedStackTraceInfo
import Mathlib.Algebra.Order.Field.Basic
import Mathlib.Algebra.Order.Field.Rat
import Mathlib.Data.List.Induction
import Mathlib.Data.UInt
import Mathlib.Tactic.FieldSimp
import Mathlib.Tactic.Linarith
import Mathlib.Tactic.Positivity
import Mathlib.Tactic.Ring

/-!
# Estimates of what was lost

The counters of a trace are the tallies of a history: allocations that were
skipped or watched, and watched blocks that were freed or found leaked. From the
tallies follow the bounds on the two ratios and on the estimates of the lost
allocations and the lost bytes.
-/
namespace AllocCounter

/-- What happens to the allocations of one trace. -/
inductive TraceEvent where
  | skip | watch | free
  | leak (size : UInt32)
deriving DecidableEq, Repr

namespace TraceEvent

def leakedSize : TraceEvent → Option UInt32
  | .leak size => some size
  | _ => none

end TraceEvent

/-- What happened to the allocations of one trace, in order. -/
abbrev TraceHistory := List TraceEvent

namespace TraceHistory

def skipped (h : TraceHistory) : ℕ := h.count .skip

def created (h : TraceHistory) : ℕ := h.count .watch

def freed (h : TraceHistory) : ℕ := h.count .free

/-- The sizes of the leaked blocks. -/
def leakedSizes (h : TraceHistory) : List UInt32 := h.filterMap TraceEvent.leakedSize

def leaked (h : TraceHistory) : ℕ := h.leakedSizes.length

/-- Only blocks that are live are freed or leaked. -/
def Valid (h : TraceHistory) : Prop :=
  ∀ before, before <+: h → freed before + leaked before ≤ created before

end TraceHistory

namespace WatchedStackTraceInfo

def handle (info : WatchedStackTraceInfo) : TraceEvent → WatchedStackTraceInfo
  | .skip => { info with countSkippedAllocations := info.countSkippedAllocations + 1 }
  | .watch =>
      { info with
        countLiveCloselyWatchedAllocations := info.countLiveCloselyWatchedAllocations + 1
        countTotalCloselyWatchedAllocationsEverCreated :=
          info.countTotalCloselyWatchedAllocationsEverCreated + 1 }
  | .free =>
      { info with
        countLiveCloselyWatchedAllocations := info.countLiveCloselyWatchedAllocations - 1 }
  | .leak size =>
      { info with
        countLiveCloselyWatchedAllocations := info.countLiveCloselyWatchedAllocations - 1
        countLeakedCloselyWatchedAllocations := info.countLeakedCloselyWatchedAllocations + 1
        countTotalLeakedMemory := info.countTotalLeakedMemory + size.toUInt64 }

/-- The counters of a trace after a history. -/
def after (stackTrace : StackTrace) (h : TraceHistory) : WatchedStackTraceInfo :=
  h.foldl handle { stackTrace }

end WatchedStackTraceInfo

namespace TraceHistory

variable {h : TraceHistory} {e : TraceEvent} {info : WatchedStackTraceInfo}

@[simp] theorem skipped_concat :
    (h ++ [e]).skipped = h.skipped + if e = .skip then 1 else 0 := by
  simp [skipped, List.count_append, List.count_singleton]

@[simp] theorem created_concat :
    (h ++ [e]).created = h.created + if e = .watch then 1 else 0 := by
  simp [created, List.count_append, List.count_singleton]

@[simp] theorem freed_concat : (h ++ [e]).freed = h.freed + if e = .free then 1 else 0 := by
  simp [freed, List.count_append, List.count_singleton]

@[simp] theorem leakedSizes_concat :
    (h ++ [e]).leakedSizes = h.leakedSizes ++ e.leakedSize.toList := by
  cases e <;> simp [leakedSizes, TraceEvent.leakedSize]

@[simp] theorem leaked_concat :
    (h ++ [e]).leaked = h.leaked + e.leakedSize.toList.length := by
  rw [leaked, leakedSizes_concat, List.length_append, leaked]

theorem Valid.of_concat (hv : Valid (h ++ [e])) :
    Valid h ∧ (h ++ [e]).freed + (h ++ [e]).leaked ≤ (h ++ [e]).created :=
  ⟨fun before hb => hv before (hb.trans (List.prefix_append _ _)), hv _ (List.prefix_refl _)⟩

theorem Valid.concat (hv : Valid h)
    (hle : (h ++ [e]).freed + (h ++ [e]).leaked ≤ (h ++ [e]).created) : Valid (h ++ [e]) := by
  intro before hb
  cases List.prefix_concat_iff.mp hb with
  | inl heq => exact heq ▸ hle
  | inr hb => exact hv before hb

/-- The counters are the tallies of the history. -/
structure Tallies (h : TraceHistory) (info : WatchedStackTraceInfo) : Prop where
  created : info.countTotalCloselyWatchedAllocationsEverCreated.toNat = h.created
  live : info.countLiveCloselyWatchedAllocations.toNat + h.freed + h.leaked = h.created
  leaked : info.countLeakedCloselyWatchedAllocations.toNat = h.leaked
  memory : info.countTotalLeakedMemory.toNat = (h.leakedSizes.map UInt32.toNat).sum
  skipped : info.countSkippedAllocations.toNat = h.skipped

theorem sum_leakedSizes_le (h : TraceHistory) :
    (h.leakedSizes.map UInt32.toNat).sum ≤ h.leaked * (2 ^ 32 - 1) := by
  unfold leaked
  induction h.leakedSizes with
  | nil => simp
  | cons size sizes ih =>
      have hsize := size.toNat_lt
      rw [List.map_cons, List.sum_cons, List.length_cons, Nat.succ_mul]
      omega

theorem toNat_add_one {x : UInt32} (hx : x.toNat + 1 < 2 ^ 32) : (x + 1).toNat = x.toNat + 1 := by
  rw [UInt32.toNat_add, UInt32.toNat_one, Nat.mod_eq_of_lt hx]

theorem toNat_sub_one {x : UInt32} (hx : 0 < x.toNat) : (x - 1).toNat = x.toNat - 1 :=
  UInt32.toNat_sub_of_le _ _ (UInt32.le_iff_toNat_le.mpr hx)

/-- One event, while the counters have room. -/
theorem Tallies.handle (ht : Tallies h info)
    (hle : (h ++ [e]).freed + (h ++ [e]).leaked ≤ (h ++ [e]).created)
    (hcreated : (h ++ [e]).created < 2 ^ 32) (hskipped : (h ++ [e]).skipped < 2 ^ 64) :
    Tallies (h ++ [e]) (info.handle e) := by
  have hsum := sum_leakedSizes_le (h ++ [e])
  have hlive := ht.live
  cases e with
  | skip =>
      simp at hskipped
      constructor <;> simp [WatchedStackTraceInfo.handle, TraceEvent.leakedSize, ht.created,
        ht.live, ht.leaked, ht.memory, ht.skipped, hskipped]
  | watch =>
      simp at hcreated
      have hone := toNat_add_one (x := info.countLiveCloselyWatchedAllocations) (by omega)
      have hmore := toNat_add_one (x := info.countTotalCloselyWatchedAllocationsEverCreated)
        (by rw [ht.created]; omega)
      constructor <;> simp [WatchedStackTraceInfo.handle, TraceEvent.leakedSize, ht.created,
        ht.leaked, ht.memory, ht.skipped, hone, hmore, -UInt32.toNat_add]
      omega
  | free =>
      simp [TraceEvent.leakedSize] at hle
      have hone := toNat_sub_one (x := info.countLiveCloselyWatchedAllocations) (by omega)
      constructor <;> simp [WatchedStackTraceInfo.handle, TraceEvent.leakedSize, ht.created,
        ht.leaked, ht.memory, ht.skipped, hone]
      omega
  | leak size =>
      simp [TraceEvent.leakedSize] at hle hcreated hsum
      have hone := toNat_sub_one (x := info.countLiveCloselyWatchedAllocations) (by omega)
      have hmore := toNat_add_one (x := info.countLeakedCloselyWatchedAllocations)
        (by rw [ht.leaked]; omega)
      -- the sizes of fewer than `2 ^ 32` blocks add up to less than `2 ^ 64`
      have hmemory : (info.countTotalLeakedMemory + size.toUInt64).toNat =
          (h.leakedSizes.map UInt32.toNat).sum + size.toNat := by
        rw [UInt64.toNat_add, UInt32.toNat_toUInt64, ht.memory, Nat.mod_eq_of_lt (by omega)]
      constructor <;> simp [WatchedStackTraceInfo.handle, TraceEvent.leakedSize, ht.created,
        ht.leaked, ht.skipped, hone, hmore, hmemory, -UInt32.toNat_add, -UInt64.toNat_add]
      omega

/-- The counters of every history are its tallies, while they have room. -/
theorem tallies (stackTrace : StackTrace) (hv : Valid h) (hcreated : h.created < 2 ^ 32)
    (hskipped : h.skipped < 2 ^ 64) : Tallies h (.after stackTrace h) := by
  induction h using List.reverseRecOn with
  | nil => exact ⟨rfl, rfl, rfl, rfl, rfl⟩
  | append_singleton h e ih =>
      obtain ⟨hv', hle⟩ := hv.of_concat
      have hcreated' := hcreated
      have hskipped' := hskipped
      rw [created_concat] at hcreated'
      rw [skipped_concat] at hskipped'
      have hbefore := ih hv' (by omega) (by omega)
      rw [WatchedStackTraceInfo.after, List.foldl_concat]
      exact hbefore.handle hle hcreated hskipped

end TraceHistory

open TraceHistory

/-- With a leak seen, nothing is divided by zero, the ratios lie between zero and
one, and no estimate is below what was seen lost. The bytes are what was seen
exactly under the given condition, and on uniform leaks they are the size times
the allocations. -/
structure SoundEstimates (h : TraceHistory) (info : WatchedStackTraceInfo) (whenExact : Prop) :
    Prop where
  finished_ne_zero : info.countFinishedWatchedAllocations ≠ 0
  total_ne_zero : info.countTotalAllocations ≠ 0
  leakRatio : ∃ r ∈ info.leakRatio, 0 < r ∧ r ≤ 1
  watchRate : ∃ r ∈ info.watchRate, 0 < r ∧ r ≤ 1
  allocations : info.countLeakedCloselyWatchedAllocations.toNat ≤ info.lostAllocationsEstimated
  bytes : info.countTotalLeakedMemory.toNat ≤ info.lostBytesEstimated
  bytes_eq : info.lostBytesEstimated = info.countTotalLeakedMemory.toNat ↔ whenExact
  uniform : info.countLiveCloselyWatchedAllocations = 0 → ∀ s, (∀ size ∈ h.leakedSizes, size = s) →
    info.lostBytesEstimated = s.toNat * info.lostAllocationsEstimated

namespace TraceHistory

variable {h : TraceHistory} {info : WatchedStackTraceInfo}

theorem ratio_pos_le_one {a b : ℕ} (ha : 0 < a) (hab : a ≤ b) :
    ∃ r ∈ ratio a b, 0 < r ∧ r ≤ 1 := by
  have hb : (0 : ℚ) < b := by exact_mod_cast ha.trans_le hab
  refine ⟨a / b, by simp [ratio, (ha.trans_le hab).ne'], by positivity, ?_⟩
  rw [div_le_one hb]
  exact_mod_cast hab

theorem Tallies.finished (ht : Tallies h info) :
    info.countFinishedWatchedAllocations.toNat = h.freed + h.leaked := by
  have hlive := ht.live
  have hle : info.countLiveCloselyWatchedAllocations ≤
      info.countTotalCloselyWatchedAllocationsEverCreated := by
    rw [UInt32.le_iff_toNat_le, ht.created]
    omega
  rw [WatchedStackTraceInfo.countFinishedWatchedAllocations, UInt32.toNat_sub_of_le _ _ hle,
    ht.created]
  omega

/-- The sum of a 64-bit and a 32-bit counter, in 32 bits. -/
theorem Tallies.total_mod (ht : Tallies h info) :
    info.countTotalAllocations.toNat = (h.skipped + h.created) % 2 ^ 32 := by
  rw [WatchedStackTraceInfo.countTotalAllocations, UInt64.toNat_toUInt32, UInt64.toNat_add,
    UInt32.toNat_toUInt64, ht.skipped, ht.created]
  omega

theorem Tallies.leaked_le (ht : Tallies h info) : h.leaked ≤ h.created := by
  have hlive := ht.live
  omega

section Fitting

variable (ht : Tallies h info) (hfits : h.skipped + h.created < 2 ^ 32)
include ht hfits

theorem Tallies.total : info.countTotalAllocations.toNat = h.skipped + h.created := by
  rw [ht.total_mod, Nat.mod_eq_of_lt hfits]

variable (hleak : 0 < h.leaked)
include hleak

theorem Tallies.lostAllocationsEstimated_eq : info.lostAllocationsEstimated =
    (h.skipped + h.created) * (h.leaked / (h.freed + h.leaked)) := by
  have hne : info.countFinishedWatchedAllocations ≠ 0 := by
    rw [ne_eq, ← UInt32.toNat_inj, ht.finished, UInt32.toNat_zero]
    omega
  have hratio : info.leakRatio = some ((h.leaked : ℚ) / (h.freed + h.leaked)) := by
    rw [WatchedStackTraceInfo.leakRatio, ratio, if_neg, ht.leaked, ht.finished, Nat.cast_add]
    rw [ht.finished]
    omega
  rw [WatchedStackTraceInfo.lostAllocationsEstimated, if_neg hne, hratio, ht.total hfits,
    Option.getD_some, Nat.cast_add]

theorem Tallies.lostBytesEstimated_eq : info.lostBytesEstimated =
    info.countTotalLeakedMemory.toNat * ((h.skipped + h.created) / h.created) := by
  have hle := ht.leaked_le
  have htotal := ht.total hfits
  have hrate : info.watchRate = some ((h.created : ℚ) / (h.skipped + h.created)) := by
    rw [WatchedStackTraceInfo.watchRate, ratio, if_neg, htotal, ht.created, Nat.cast_add]
    rw [htotal]
    omega
  rw [WatchedStackTraceInfo.lostBytesEstimated, hrate, Option.elim_some, div_eq_mul_inv, inv_div]

/-- What the tallies say about the estimates. -/
theorem Tallies.soundEstimates :
    SoundEstimates h info (h.skipped = 0 ∨ info.countTotalLeakedMemory = 0) := by
  have hlive := ht.live
  have hle := ht.leaked_le
  have hcreated : (0 : ℚ) < h.created := by exact_mod_cast hleak.trans_le hle
  have hleaked : (0 : ℚ) < h.leaked := by exact_mod_cast hleak
  have hfinished : (h.freed + h.leaked : ℚ) ≤ h.created := by
    exact_mod_cast (by omega : h.freed + h.leaked ≤ h.created)
  have htotal := ht.total hfits
  have hallocations := ht.lostAllocationsEstimated_eq hfits hleak
  have hbytes := ht.lostBytesEstimated_eq hfits hleak
  have hmemory : (0 : ℚ) ≤ info.countTotalLeakedMemory.toNat := Nat.cast_nonneg _
  have hskipped : (0 : ℚ) ≤ h.skipped := Nat.cast_nonneg _
  have hfreed : (0 : ℚ) ≤ h.freed := Nat.cast_nonneg _
  refine ⟨?_, ?_, ?_, ?_, ?_, ?_, ?_, ?_⟩
  · rw [ne_eq, ← UInt32.toNat_inj, ht.finished, UInt32.toNat_zero]
    omega
  · rw [ne_eq, ← UInt32.toNat_inj, htotal, UInt32.toNat_zero]
    omega
  · rw [WatchedStackTraceInfo.leakRatio, ht.leaked, ht.finished]
    exact ratio_pos_le_one hleak (Nat.le_add_left _ _)
  · rw [WatchedStackTraceInfo.watchRate, ht.created, htotal]
    exact ratio_pos_le_one (hleak.trans_le hle) (Nat.le_add_left _ _)
  · -- no more blocks finished than allocations were made
    rw [hallocations, ht.leaked, mul_div_assoc', le_div_iff₀ (by positivity), mul_comm]
    exact mul_le_mul_of_nonneg_right (by linarith) hleaked.le
  · rw [hbytes, mul_div_assoc', le_div_iff₀ hcreated]
    exact mul_le_mul_of_nonneg_left (by linarith) hmemory
  · rw [hbytes, mul_div_assoc', div_eq_iff hcreated.ne', mul_eq_mul_left_iff, ← UInt64.toNat_inj]
    simp
  · intro hnone s hsame
    have hsum : info.countTotalLeakedMemory.toNat = h.leaked * s.toNat := by
      rw [ht.memory, List.map_congr_left fun size hsize => congrArg UInt32.toNat (hsame size hsize),
        List.map_const', List.sum_replicate_nat]
      rfl
    have hall : (h.freed + h.leaked : ℚ) = h.created := by
      rw [hnone] at hlive
      exact_mod_cast (by simpa using hlive)
    rw [hbytes, hallocations, hsum, hall]
    push_cast
    ring

end Fitting

/-- After every history of fewer than `2 ^ 32` allocations with a leak the
estimates are sound, and the bytes are exact if nothing was skipped or the leaked
blocks were empty. -/
theorem estimates_sound (stackTrace : StackTrace) (h : TraceHistory) (hv : Valid h)
    (hfits : h.skipped + h.created < 2 ^ 32) (hleak : 0 < h.leaked) :
    SoundEstimates h (.after stackTrace h) (h.skipped = 0 ∨
      (WatchedStackTraceInfo.after stackTrace h).countTotalLeakedMemory = 0) :=
  (tallies stackTrace hv (by omega) (by omega)).soundEstimates hfits hleak

instance (h : TraceHistory) : Decidable (Valid h) :=
  decidable_of_iff (∀ before ∈ h.inits, freed before + leaked before ≤ created before)
    (by simp [Valid, List.mem_inits])

/-- Of 90 allocations of a mebibyte 30 are watched, and half of those leak. -/
def halfLeaked : TraceHistory :=
  List.replicate 30 .watch ++ List.replicate 60 .skip ++ List.replicate 15 .free ++
    List.replicate 15 (.leak 1048576)

theorem estimates_sound_halfLeaked :
    SoundEstimates halfLeaked (.after ⟨[1]⟩ halfLeaked) (halfLeaked.skipped = 0 ∨
      (WatchedStackTraceInfo.after ⟨[1]⟩ halfLeaked).countTotalLeakedMemory = 0) :=
  estimates_sound ⟨[1]⟩ halfLeaked (by decide +kernel) (by decide +kernel) (by decide +kernel)

example : (WatchedStackTraceInfo.after ⟨[1]⟩ halfLeaked).lostBytesEstimated = 45 * 1048576 := by
  decide +kernel

/-- Skipped allocations are counted as such only. -/
theorem counts_skips (h : TraceHistory) (n : ℕ) :
    (h ++ List.replicate n TraceEvent.skip).created = h.created ∧
      (h ++ List.replicate n TraceEvent.skip).skipped = h.skipped + n ∧
      (h ++ List.replicate n TraceEvent.skip).leaked = h.leaked := by
  induction n with
  | zero => simp
  | succ n ih =>
      obtain ⟨hcreated, hskipped, hleaked⟩ := ih
      rw [List.replicate_succ', ← List.append_assoc]
      rw [created_concat, skipped_concat, leaked_concat, hcreated, hskipped, hleaked]
      exact ⟨rfl, rfl, rfl⟩

theorem Valid.skips {h : TraceHistory} (hv : Valid h) (n : ℕ) :
    Valid (h ++ List.replicate n .skip) := by
  induction n with
  | zero => simpa using hv
  | succ n ih =>
      rw [List.replicate_succ', ← List.append_assoc]
      refine ih.concat ?_
      simpa only [freed_concat, leaked_concat, created_concat, TraceEvent.leakedSize,
        reduceCtorEq, if_false, Option.toList_none, List.length_nil, Nat.add_zero] using
        ih _ (List.prefix_refl _)

/-- An empty block leaks, and another allocation is skipped. -/
def emptyLeak : TraceHistory := [.watch, .leak 0, .skip]

/-- A block of eight bytes leaks, and `2 ^ 32 - 1` allocations are skipped. -/
def hotLeak : TraceHistory := [.watch, .leak 8] ++ List.replicate (2 ^ 32 - 1) .skip

/-- The bytes of empty blocks are exact although an allocation was skipped, and
`2 ^ 32` allocations are counted as none, by which the watch rate divides. -/
theorem not_soundEstimates :
    (Valid emptyLeak ∧ 0 < emptyLeak.leaked ∧
      ¬ SoundEstimates emptyLeak (.after ⟨[1]⟩ emptyLeak) (emptyLeak.skipped = 0)) ∧
    Valid hotLeak ∧ 0 < hotLeak.leaked ∧
      ¬ SoundEstimates hotLeak (.after ⟨[1]⟩ hotLeak) (hotLeak.skipped = 0) := by
  refine ⟨⟨by decide, by decide, fun hsound => ?_⟩, ?_, ?_, fun hsound => ?_⟩
  · have hexact : (WatchedStackTraceInfo.after ⟨[1]⟩ emptyLeak).lostBytesEstimated =
        (WatchedStackTraceInfo.after ⟨[1]⟩ emptyLeak).countTotalLeakedMemory.toNat := by
      decide +kernel
    exact absurd (hsound.bytes_eq.mp hexact) (by decide)
  · exact Valid.skips (by decide) _
  · exact lt_of_lt_of_eq (by decide) (counts_skips [.watch, .leak 8] (2 ^ 32 - 1)).2.2.symm
  · obtain ⟨hcreated, hskipped, -⟩ := counts_skips [.watch, .leak 8] (2 ^ 32 - 1)
    have hone : created [.watch, .leak 8] = 1 := by decide
    have hnone : skipped [.watch, .leak 8] = 0 := by decide
    rw [hone] at hcreated
    rw [hnone, Nat.zero_add] at hskipped
    change hotLeak.created = _ at hcreated
    change hotLeak.skipped = _ at hskipped
    have hvalid : Valid hotLeak := Valid.skips (by decide) _
    have htotal := (tallies ⟨[1]⟩ hvalid (by omega) (by omega)).total_mod
    rw [hcreated, hskipped] at htotal
    exact hsound.total_ne_zero (UInt32.toNat_inj.mp (htotal.trans (by norm_num)))

end TraceHistory

end AllocCounter
