import Mathlib.Data.UInt

/-!
# Stack traces and fingerprints

`common/stack-trace.h` and `alloc-counter/callstack-fingerprint.h` on a 64-bit
machine. The unwinder is what the constructor iterates over, so a capture takes
the instruction pointers it yields, most recent call first. `std::hash` of a
word is the word.
-/
namespace AllocCounter

abbrev Address := UInt64

abbrev CallstackFingerprint := UInt32

structure StackTrace where
  returnAddresses : List Address
deriving DecidableEq, Repr

namespace StackTrace

/-- The constructor. -/
def capture (numSkipCalls : ℕ) (ips : List Address) : StackTrace := ⟨ips.drop numSkipCalls⟩

/-- `m_hash` after the constructor's loop. -/
def hash (st : StackTrace) : UInt64 := st.returnAddresses.foldl (fun h ip => (h <<< 1) ^^^ ip) 0

end StackTrace

/-- Lossy on a 64-bit machine. -/
def pointerToInt (pointer : Address) : UInt32 := pointer.toUInt32

def computeCallstackFingerprint (approximateStackPointer returnAddress : Address)
    (allocationSize : UInt32) : CallstackFingerprint :=
  let sizeClass : UInt32 :=
    if allocationSize < 100 then allocationSize
    else if allocationSize < 2048 then 769
    else 49157
  (pointerToInt approximateStackPointer <<< 1) ^^^ pointerToInt returnAddress ^^^
    (sizeClass * 786433)

end AllocCounter
