import AllocCounter.StackTraces

/-!
# What a fingerprint tells apart

The three ingredients of a fingerprint are combined by exclusive or, so each can
be cancelled. What is left of the size is a multiple of an odd constant, and what
is left of the stack pointer has lost its top bits.
-/
namespace AllocCounter

/-- The class of a size, as the fingerprint encodes it. -/
def sizeClass (allocationSize : UInt32) : UInt32 :=
  if allocationSize < 100 then allocationSize
  else if allocationSize < 2048 then 769
  else 49157

/-- Small sizes are classes of their own, the others are medium or large. -/
def SameSizeClass (a b : UInt32) : Prop :=
  (a < 100 ∧ a = b) ∨ ((100 ≤ a ∧ a < 2048) ∧ 100 ≤ b ∧ b < 2048) ∨ (2048 ≤ a ∧ 2048 ≤ b)

instance (a b : UInt32) : Decidable (SameSizeClass a b) := inferInstanceAs (Decidable (_ ∨ _ ∨ _))

theorem computeCallstackFingerprint_eq (stackPointer returnAddress : Address) (size : UInt32) :
    computeCallstackFingerprint stackPointer returnAddress size =
      (pointerToInt stackPointer <<< 1) ^^^ pointerToInt returnAddress ^^^
        (sizeClass size * 786433) := rfl

open scoped UInt32.CommRing in
/-- The constant is odd, so it has an inverse. -/
theorem isUnit_multiplier : IsUnit (786433 : UInt32) := .of_mul_eq_one 4294180865 (by decide)

/-- The constants of the two larger classes are different from each other and from
every small size. -/
theorem sizeClass_eq_iff {a b : UInt32} : sizeClass a = sizeClass b ↔ SameSizeClass a b := by
  simp only [sizeClass, SameSizeClass, UInt32.lt_iff_toNat_lt, UInt32.le_iff_toNat_le,
    ← UInt32.toNat_inj]
  split_ifs <;> simp at * <;> omega

theorem pointerToInt_eq_iff {p q : Address} :
    pointerToInt p = pointerToInt q ↔ p.toNat % 2 ^ 32 = q.toNat % 2 ^ 32 := by
  rw [pointerToInt, pointerToInt, ← UInt32.toNat_inj, UInt64.toNat_toUInt32, UInt64.toNat_toUInt32]

/-- The shift drops the top one of the 32 bits. -/
theorem pointerToInt_shiftLeft_eq_iff {p q : Address} :
    pointerToInt p <<< 1 = pointerToInt q <<< 1 ↔ p.toNat % 2 ^ 31 = q.toNat % 2 ^ 31 := by
  have hshift : ∀ p : Address, (pointerToInt p <<< 1).toNat = p.toNat % 2 ^ 31 * 2 := by
    intro p
    rw [UInt32.toNat_shiftLeft, pointerToInt, UInt64.toNat_toUInt32]
    simp only [UInt32.reduceToNat, Nat.reduceMod, Nat.shiftLeft_eq]
    omega
  rw [← UInt32.toNat_inj, hshift, hshift]
  omega

/-- With the other two ingredients fixed, a fingerprint tells apart exactly the
size classes, the low 32 bits of the return addresses and the low 31 bits of the
stack pointers. -/
theorem fingerprint_injective :
    (∀ stackPointer returnAddress a b,
      computeCallstackFingerprint stackPointer returnAddress a =
        computeCallstackFingerprint stackPointer returnAddress b ↔ SameSizeClass a b) ∧
    (∀ stackPointer size r r',
      computeCallstackFingerprint stackPointer r size =
        computeCallstackFingerprint stackPointer r' size ↔
          r.toNat % 2 ^ 32 = r'.toNat % 2 ^ 32) ∧
    (∀ returnAddress size s s',
      computeCallstackFingerprint s returnAddress size =
        computeCallstackFingerprint s' returnAddress size ↔
          s.toNat % 2 ^ 31 = s'.toNat % 2 ^ 31) := by
  refine ⟨fun stackPointer returnAddress a b => ?_, fun stackPointer size r r' => ?_,
    fun returnAddress size s s' => ?_⟩
  · rw [computeCallstackFingerprint_eq, computeCallstackFingerprint_eq, UInt32.xor_right_inj,
      isUnit_multiplier.mul_left_inj, sizeClass_eq_iff]
  · rw [computeCallstackFingerprint_eq, computeCallstackFingerprint_eq, UInt32.xor_left_inj,
      UInt32.xor_right_inj, pointerToInt_eq_iff]
  · rw [computeCallstackFingerprint_eq, computeCallstackFingerprint_eq, UInt32.xor_left_inj,
      UInt32.xor_left_inj, pointerToInt_shiftLeft_eq_iff]

end AllocCounter
