import Mathlib.Data.Nat.Bitwise
import Mathlib.Algebra.Order.Ring.Int
import Mathlib.Order.Bounds.Defs
import Mathlib.Tactic.Common
import Mathlib.Tactic.NormNum

/-!
# Pointer-sized words

Signed pointer-sized words are integers reduced to the balanced residue system
modulo the word size, unsigned ones are natural numbers reduced modulo it. A
power of two less one is the mask of the bits below it.
-/
namespace AllocCounter

/-- The data models of the machines the program is built for. -/
inductive Target where
  | ilp32
  | lp64
deriving DecidableEq, Repr

namespace Target

def bits : Target → ℕ
  | ilp32 => 32
  | lp64 => 64

/-- Conversion to `intptr_t`. -/
def intptr (t : Target) (x : ℤ) : ℤ := x.bmod (2 ^ t.bits)

/-- Conversion to `size_t`. -/
def sizeT (t : Target) (x : ℤ) : ℕ := (x % 2 ^ t.bits).toNat

def intptrMin (t : Target) : ℤ := -2 ^ (t.bits - 1)

def intptrMax (t : Target) : ℤ := 2 ^ (t.bits - 1) - 1

theorem intptr_eq (t : Target) {x : ℤ} (hlo : t.intptrMin ≤ x) (hhi : x ≤ t.intptrMax) :
    t.intptr x = x := by
  cases t <;> simp only [intptr, intptrMin, intptrMax, bits, Int.bmod_def] at * <;> omega

/-- A difference of two addresses in order is its own `size_t`. -/
theorem sizeT_sub (t : Target) {a b : ℤ} (ha : t.intptrMin ≤ a) (hab : a ≤ b)
    (hb : b ≤ t.intptrMax) : (t.sizeT (b - a) : ℤ) = b - a := by
  cases t <;> simp only [sizeT, intptrMin, intptrMax, bits] at * <;> omega

end Target

/-- The least multiple of `m` that is not below `n`. -/
def roundedUp (m n : ℕ) : ℕ := (n + (m - 1)) / m * m

theorem isLeast_roundedUp {m : ℕ} (hm : 0 < m) (n : ℕ) :
    IsLeast {k | n ≤ k ∧ m ∣ k} (roundedUp m n) := by
  constructor
  · refine ⟨?_, Nat.dvd_mul_left m _⟩
    have hdiv := Nat.div_add_mod' (n + (m - 1)) m
    have hmod := Nat.mod_lt (n + (m - 1)) hm
    rw [roundedUp]
    omega
  · rintro k ⟨hle, c, rfl⟩
    rw [roundedUp, Nat.mul_comm m c]
    refine Nat.mul_le_mul_right m (Nat.lt_succ_iff.mp ((Nat.div_lt_iff_lt_mul hm).mpr ?_))
    rw [Nat.succ_mul, Nat.mul_comm c m]
    omega

/-- Clearing the bits below a power of two. -/
theorem ldiff_two_pow_sub_one (n k : ℕ) : n.ldiff (2 ^ k - 1) = n / 2 ^ k * 2 ^ k := by
  apply Nat.eq_of_testBit_eq
  intro i
  rw [Nat.testBit_ldiff, Nat.testBit_two_pow_sub_one, Nat.testBit_mul_two_pow,
    Nat.testBit_div_two_pow]
  by_cases h : k ≤ i
  · simp [h, Nat.not_lt.mpr h, Nat.sub_add_cancel h]
  · simp [h, Nat.not_le.mp h]

theorem toNat_and_not {w : ℕ} (a b : BitVec w) : (a &&& ~~~b).toNat = a.toNat.ldiff b.toNat := by
  apply Nat.eq_of_testBit_eq
  intro i
  simp only [Nat.testBit_ldiff, BitVec.testBit_toNat, BitVec.getLsbD_and, BitVec.getLsbD_not]
  by_cases hi : i < w
  · simp [hi]
  · simp [hi, BitVec.getLsbD_of_ge _ _ (not_lt.mp hi)]

/-- Adding the mask and clearing its bits rounds up, if the sum does not overflow. -/
theorem toNat_add_mask_and_not {m : UInt64} {k : ℕ} (hm : m.toNat = 2 ^ k) {n : UInt64}
    (hfits : n.toNat + (m.toNat - 1) < 2 ^ 64) :
    ((n + (m - 1)) &&& ~~~(m - 1)).toNat = roundedUp m.toNat n.toNat := by
  have hpos : 1 ≤ m.toNat := hm ▸ Nat.one_le_two_pow
  have hmask : (m - 1).toNat = m.toNat - 1 := UInt64.toNat_sub_of_le m 1 hpos
  have hsum : (n + (m - 1)).toNat = n.toNat + (m.toNat - 1) := by
    rw [UInt64.toNat_add, hmask, Nat.mod_eq_of_lt hfits]
  have hand : ((n + (m - 1)) &&& ~~~(m - 1)).toNat = (n + (m - 1)).toNat.ldiff (m - 1).toNat :=
    toNat_and_not _ _
  rw [hand, hsum, hmask, hm, ldiff_two_pow_sub_one, roundedUp]

/-- An aligned word has none of the bits below. -/
theorem and_mask_eq_zero {m : UInt64} {k : ℕ} (hm : m.toNat = 2 ^ k) {n : UInt64} :
    n &&& (m - 1) = 0 ↔ m.toNat ∣ n.toNat := by
  have hpos : 1 ≤ m.toNat := hm ▸ Nat.one_le_two_pow
  have hmask : (m - 1).toNat = 2 ^ k - 1 := hm ▸ UInt64.toNat_sub_of_le m 1 hpos
  rw [← UInt64.toNat_inj, UInt64.toNat_and, hmask, Nat.and_two_pow_sub_one_eq_mod,
    Nat.dvd_iff_mod_eq_zero, hm]
  rfl

end AllocCounter
