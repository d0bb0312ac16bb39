import AllocCounter.MachineWords

/-!
# Settings of the library

The settings of `common/environment.h` about allocations, with their defaults. The
rest time is loaded but not used, as in the source. The page size is what `sysconf`
returns, a power of two.
-/
namespace AllocCounter

structure Environment where
  timeForAllocationToBecomeSuspicious : UInt32 := 30
  closelyWatchedAllocationsAccessMaxInterval : UInt32 := 1
  closelyWatchedAllocationsRestTime : UInt32 := 10
  enoughSamplesToProveNoLeak : UInt32 := 5
  globalMaxLiveCloselyWatchedAllocations : UInt32 := 50000
  maxLiveCloselyWatchedAllocationsPerTrace : UInt32 := 30
  pageSize : UInt32
  pageSize_pow : ∃ k, pageSize.toNat = 2 ^ k

namespace Environment

/-- The default settings on a machine with pages of 4096 bytes. -/
def default : Environment where
  pageSize := 4096
  pageSize_pow := ⟨12, rfl⟩

variable (env : Environment)

def roundUpToPageMultiple (size : UInt32) : UInt32 :=
  (size + (env.pageSize - 1)) &&& ~~~(env.pageSize - 1)

theorem pageSize_pos : 0 < env.pageSize.toNat := by
  obtain ⟨k, hk⟩ := env.pageSize_pow
  rw [hk]
  exact Nat.two_pow_pos k

theorem pageSize_sub_one : (env.pageSize - 1).toNat = env.pageSize.toNat - 1 :=
  UInt32.toNat_sub_of_le _ _ (UInt32.le_iff_toNat_le.mpr env.pageSize_pos)

theorem roundUpToPageMultiple_toNat (size : UInt32) :
    (env.roundUpToPageMultiple size).toNat =
      (size.toNat + (env.pageSize.toNat - 1)) % 2 ^ 32 / env.pageSize.toNat *
        env.pageSize.toNat := by
  obtain ⟨k, hk⟩ := env.pageSize_pow
  have hand : (env.roundUpToPageMultiple size).toNat =
      (size + (env.pageSize - 1)).toNat.ldiff (env.pageSize - 1).toNat := toNat_and_not _ _
  rw [hand, UInt32.toNat_add, pageSize_sub_one, hk, ldiff_two_pow_sub_one]

/-- A size that leaves room for a page is rounded up to whole pages. -/
theorem roundUpToPageMultiple_eq {size : UInt32} (h : size.toNat + env.pageSize.toNat ≤ 2 ^ 32) :
    (env.roundUpToPageMultiple size).toNat = roundedUp env.pageSize.toNat size.toNat := by
  have hpos := env.pageSize_pos
  rw [roundUpToPageMultiple_toNat, Nat.mod_eq_of_lt (by omega), roundedUp]

theorem isLeast_roundUpToPageMultiple {size : UInt32}
    (h : size.toNat + env.pageSize.toNat ≤ 2 ^ 32) :
    IsLeast {n | size.toNat ≤ n ∧ env.pageSize.toNat ∣ n}
      (env.roundUpToPageMultiple size).toNat := by
  rw [roundUpToPageMultiple_eq env h]
  exact isLeast_roundedUp env.pageSize_pos size.toNat

/-- Rounding up loses bytes exactly when the sum wraps. -/
theorem le_roundUpToPageMultiple_iff (size : UInt32) :
    size.toNat ≤ (env.roundUpToPageMultiple size).toNat ↔
      size.toNat + env.pageSize.toNat ≤ 2 ^ 32 := by
  constructor
  · intro h
    by_contra hwrap
    have hpage := env.pageSize.toNat_lt
    have hsize := size.toNat_lt
    have hsum : (size.toNat + (env.pageSize.toNat - 1)) % 2 ^ 32 < env.pageSize.toNat := by omega
    rw [roundUpToPageMultiple_toNat, Nat.div_eq_of_lt hsum] at h
    omega
  · exact fun h => (env.isLeast_roundUpToPageMultiple h).1.1

end Environment

end AllocCounter
