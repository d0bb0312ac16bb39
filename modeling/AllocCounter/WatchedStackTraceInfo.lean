import AllocCounter.Environment
import AllocCounter.StackTraces
import Mathlib.Data.Rat.Defs

/-!
# Counters of one suspicious stack trace

`alloc-counter/watched-stack-trace-info.h`. The counter shared by all traces is a
static member there; here it is passed to the function that reads it. A `float` is
an exact rational, and a quotient by zero is `none`. An infinite quotient stands
for zero where the code divides by it.
-/
namespace AllocCounter

/-- `(float) a / b` -/
def ratio (a b : ℕ) : Option ℚ := if b = 0 then none else some (a / b)

inductive Trilean where
  | unknown | true | false
deriving DecidableEq, Repr

structure WatchedStackTraceInfo where
  stackTrace : StackTrace
  countTotalCloselyWatchedAllocationsEverCreated : UInt32 := 0
  countLiveCloselyWatchedAllocations : UInt32 := 0
  countLeakedCloselyWatchedAllocations : UInt32 := 0
  countTotalLeakedMemory : UInt64 := 0
  countSkippedAllocations : UInt64 := 0
deriving DecidableEq, Repr

namespace WatchedStackTraceInfo

variable (env : Environment) (info : WatchedStackTraceInfo)

def countFinishedWatchedAllocations : UInt32 :=
  info.countTotalCloselyWatchedAllocationsEverCreated - info.countLiveCloselyWatchedAllocations

def hasLeaks : Trilean :=
  if info.countLeakedCloselyWatchedAllocations > 0 then .true
  else if info.countFinishedWatchedAllocations ≥ env.enoughSamplesToProveNoLeak then .false
  else .unknown

def needsMoreCloselyWatchedAllocations (countLiveCloselyWatchedAllocationsAllTraces : UInt32) :
    Bool :=
  if info.countLiveCloselyWatchedAllocations ≥ env.maxLiveCloselyWatchedAllocationsPerTrace then
    false
  else if countLiveCloselyWatchedAllocationsAllTraces ≥
      env.globalMaxLiveCloselyWatchedAllocations then false
  else info.hasLeaks env != .false

def countTotalAllocations : UInt32 :=
  (info.countSkippedAllocations +
    info.countTotalCloselyWatchedAllocationsEverCreated.toUInt64).toUInt32

/-- 1.0 -> leaks always, 0.0 -> never leaks, `none` -> no info -/
def leakRatio : Option ℚ :=
  ratio info.countLeakedCloselyWatchedAllocations.toNat
    info.countFinishedWatchedAllocations.toNat

def lostAllocationsEstimated : ℚ :=
  if info.countFinishedWatchedAllocations = 0 then 0
  else info.countTotalAllocations.toNat * info.leakRatio.getD 0

def watchRate : Option ℚ :=
  ratio info.countTotalCloselyWatchedAllocationsEverCreated.toNat
    info.countTotalAllocations.toNat

def lostBytesEstimated : ℚ := info.watchRate.elim 0 fun rate => info.countTotalLeakedMemory.toNat / rate

end WatchedStackTraceInfo

end AllocCounter
