import AllocCounter.TrackedBlocks
import Mathlib.Data.Nat.Log

/-!
# The allocator wrappers

`alloc-counter/wrapper-malloc.cpp`, less the look-up of the real functions. A
wrapper makes one instrumented call and passes it a callback. The callback calls
the real function of the same name with the arguments of the wrapper, so one
type of calls serves for what the application asks and for what the real
allocators are asked.
-/
namespace AllocCounter

inductive AllocatorCall where
  | malloc (size : UInt64)
  | calloc (numMembers memberSize : UInt64)
  | posix_memalign (alignment size : UInt64)
  | aligned_alloc (alignment size : UInt64)
  | valloc (size : UInt64)
  | memalign (alignment size : UInt64)
  | pvalloc (size : UInt64)
  | free (memory : Address)
  | realloc (oldMemory : Address) (newSize : UInt64)
  | reallocarray (oldMemory : Address) (newNumElements newElementSize : UInt64)
deriving DecidableEq, Repr

/-- The instrumented call of a wrapper. Size and alignment of an allocation are
converted to 32 bits when they are passed. -/
inductive InstrumentedCall where
  | allocate (size alignment : UInt64) (callback : AllocatorCall) (zeroFill : ZeroFill)
  | reallocate (oldMemory : Address) (newRequestedSize : UInt64) (callback : AllocatorCall)
  | free (memory : Address) (callback : AllocatorCall)
deriving DecidableEq, Repr

namespace Wrapper

variable (env : Environment)

def malloc (size : UInt64) : InstrumentedCall :=
  .allocate size noAlignment.toUInt64 (.malloc size) .unnecessary

def calloc (numMembers memberSize : UInt64) : InstrumentedCall :=
  let size := numMembers * memberSize
  .allocate size noAlignment.toUInt64 (.calloc numMembers memberSize) .needed

def posix_memalign (alignment size : UInt64) : InstrumentedCall :=
  .allocate size alignment (.posix_memalign alignment size) .unnecessary

def aligned_alloc (alignment size : UInt64) : InstrumentedCall :=
  .allocate size alignment (.aligned_alloc alignment size) .unnecessary

def valloc (size : UInt64) : InstrumentedCall :=
  .allocate size env.pageSize.toUInt64 (.valloc size) .unnecessary

def memalign (alignment size : UInt64) : InstrumentedCall :=
  .allocate size alignment (.memalign alignment size) .unnecessary

def pvalloc (size : UInt64) : InstrumentedCall :=
  .allocate size env.pageSize.toUInt64 (.pvalloc size) .unnecessary

def free (memory : Address) : InstrumentedCall := .free memory (.free memory)

def realloc (oldMemory : Address) (newSize : UInt64) : InstrumentedCall :=
  if oldMemory = 0 then
    .allocate newSize noAlignment.toUInt64 (.realloc 0 newSize) .unnecessary
  else if newSize = 0 then .free oldMemory (.realloc oldMemory 0)
  else .reallocate oldMemory newSize (.realloc oldMemory newSize)

def reallocarray (oldMemory : Address) (newNumElements newElementSize : UInt64) :
    InstrumentedCall :=
  let newSize := newNumElements * newElementSize
  if oldMemory = 0 then
    .allocate newSize noAlignment.toUInt64 (.reallocarray 0 newNumElements newElementSize)
      .unnecessary
  else if newSize = 0 then
    .free oldMemory (.reallocarray oldMemory newNumElements newElementSize)
  else .reallocate oldMemory newSize (.reallocarray oldMemory newNumElements newElementSize)

end Wrapper

namespace AllocatorCall

variable (env : Environment)

def wrapped : AllocatorCall → InstrumentedCall
  | malloc size => Wrapper.malloc size
  | calloc numMembers memberSize => Wrapper.calloc numMembers memberSize
  | posix_memalign alignment size => Wrapper.posix_memalign alignment size
  | aligned_alloc alignment size => Wrapper.aligned_alloc alignment size
  | valloc size => Wrapper.valloc env size
  | memalign alignment size => Wrapper.memalign alignment size
  | pvalloc size => Wrapper.pvalloc env size
  | free memory => Wrapper.free memory
  | realloc oldMemory newSize => Wrapper.realloc oldMemory newSize
  | reallocarray oldMemory newNumElements newElementSize =>
      Wrapper.reallocarray oldMemory newNumElements newElementSize

/-- The bytes that a call asks for. -/
def bytes : AllocatorCall → ℕ
  | malloc size | posix_memalign _ size | aligned_alloc _ size | valloc size
  | memalign _ size | pvalloc size | realloc _ size => size.toNat
  | calloc count size | reallocarray _ count size => count.toNat * size.toNat
  | free _ => 0

/-- The alignment that a call asks for. -/
def alignment : AllocatorCall → ℕ
  | posix_memalign alignment _ | aligned_alloc alignment _ | memalign alignment _ =>
      alignment.toNat
  | valloc _ | pvalloc _ => env.pageSize.toNat
  | malloc _ | calloc _ _ | free _ | realloc _ _ | reallocarray _ _ _ => 1

/-- The alignment that a real function grants: `memalign` rounds up to a power
of two. -/
def grantedAlignment (call : AllocatorCall) : ℕ :=
  match call with
  | memalign alignment _ => 2 ^ Nat.clog 2 alignment.toNat
  | _ => call.alignment env

/-- Whether a real function that is called to free a block frees it. -/
def frees : AllocatorCall → Bool
  | reallocarray _ count size => count.toNat * size.toNat < 2 ^ 64
  | _ => true

def returnsPointer : AllocatorCall → Bool
  | free _ => false
  | _ => true

variable {env} {asked callback : AllocatorCall}

/-- Only `realloc` and `reallocarray` reallocate. -/
theorem of_wrapped_reallocate {oldMemory : Address} {newRequestedSize : UInt64}
    (h : asked.wrapped env = .reallocate oldMemory newRequestedSize callback) :
    asked = .realloc oldMemory newRequestedSize ∨
      ∃ count n, asked = .reallocarray oldMemory count n ∧ newRequestedSize = count * n := by
  cases asked with
  | malloc | posix_memalign | aligned_alloc | memalign | valloc | pvalloc | calloc | free =>
      exact nomatch h
  | realloc old n =>
      simp only [wrapped, Wrapper.realloc] at h
      split_ifs at h
      obtain ⟨rfl, rfl, -⟩ := InstrumentedCall.reallocate.inj h
      exact .inl rfl
  | reallocarray old count n =>
      simp only [wrapped, Wrapper.reallocarray] at h
      split_ifs at h
      obtain ⟨rfl, rfl, -⟩ := InstrumentedCall.reallocate.inj h
      exact .inr ⟨count, n, rfl, rfl⟩

/-- What frees is `free`, or a reallocation of a block to a size of zero. -/
theorem of_wrapped_free {memory : Address} (h : asked.wrapped env = .free memory callback) :
    callback = asked ∧ (asked = .free memory ∨ memory ≠ 0 ∧
      (asked = .realloc memory 0 ∨ ∃ count n, asked = .reallocarray memory count n)) := by
  cases asked with
  | malloc | posix_memalign | aligned_alloc | memalign | valloc | pvalloc | calloc =>
      exact nomatch h
  | free old =>
      obtain ⟨rfl, rfl⟩ := InstrumentedCall.free.inj h
      exact ⟨rfl, .inl rfl⟩
  | realloc old n =>
      simp only [wrapped, Wrapper.realloc] at h
      split_ifs at h with hold hsize
      obtain ⟨rfl, rfl⟩ := InstrumentedCall.free.inj h
      exact ⟨by rw [hsize], .inr ⟨hold, .inl (by rw [hsize])⟩⟩
  | reallocarray old count n =>
      simp only [wrapped, Wrapper.reallocarray] at h
      split_ifs at h with hold hsize
      obtain ⟨rfl, rfl⟩ := InstrumentedCall.free.inj h
      exact ⟨rfl, .inr ⟨hold, .inr ⟨count, n, rfl⟩⟩⟩

end AllocatorCall

/-- What the fingerprint of a call is taken from. -/
structure CallSite where
  stackTop : Address
  returnAddress : Address
deriving DecidableEq, Repr

def makeCallstackFingerprint (site : CallSite) (allocationSize : UInt32) : CallstackFingerprint :=
  computeCallstackFingerprint site.stackTop site.returnAddress allocationSize

inductive AppEvent where
  | call (c : Caller) (site : CallSite) (asked : AllocatorCall) (answer : Address) (capacity : ℕ)
  | patrol (time : UInt64) (lightOrder watchedOrder : List Address)
  | setWatchState (watchState : WatchState)
deriving DecidableEq

def InstrumentedCall.request (site : CallSite) (size alignment : UInt64) (zeroFill : ZeroFill) :
    Request :=
  ⟨size, alignment, makeCallstackFingerprint site size.toUInt32, zeroFill⟩

def InstrumentedCall.event (c : Caller) (site : CallSite) (answer : Address) (capacity : ℕ) :
    InstrumentedCall → Event
  | .allocate size alignment _ zeroFill =>
      .allocate c (request site size alignment zeroFill) answer capacity
  | .reallocate oldMemory newRequestedSize _ =>
      .reallocate c oldMemory newRequestedSize answer capacity
  | .free memory callback => .free c memory callback.frees answer capacity

def AppEvent.event (env : Environment) : AppEvent → Event
  | .call c site asked answer capacity => (asked.wrapped env).event c site answer capacity
  | .patrol time lightOrder watchedOrder => .patrol time lightOrder watchedOrder
  | .setWatchState w => .setWatchState w

namespace System

variable (env : Environment)

/-- The effects of an event outside the table. -/
def effects (s : System) : Event → List Effect
  | .allocate c r answer _ =>
      (s.table.instrumentedAllocate env c r.size.toUInt32 r.alignment.toUInt32 r.fingerprint
        (fun _ => answer) r.zeroFill).effects
  | .reallocate c oldMemory newRequestedSize answer _ =>
      (s.table.instrumentedReallocate env c oldMemory newRequestedSize
        fun _ => answer).elim [] Outcome.effects
  | .free c memory _ answer _ => (s.table.instrumentedFree c memory fun _ => answer).2
  | .patrol _ _ _ | .setWatchState _ => []

/-- The pointer that the caller gets. -/
def returned (s : System) : Event → Address
  | .allocate c r answer _ =>
      (s.table.instrumentedAllocate env c r.size.toUInt32 r.alignment.toUInt32 r.fingerprint
        (fun _ => answer) r.zeroFill).memory
  | .reallocate c oldMemory newRequestedSize answer _ =>
      (s.table.instrumentedReallocate env c oldMemory newRequestedSize
        fun _ => answer).elim 0 Outcome.memory
  | .free _ _ _ answer _ => answer
  | .patrol _ _ _ | .setWatchState _ => 0

end System

/-- The real function behind a real call. -/
def RealCall.function (callback : AllocatorCall) : RealCall → AllocatorCall
  | .preferred => callback
  | .memalign alignment size => .memalign alignment size

/-- A block that a real function returns has the size and the alignment that it
was asked for, and fits in the address space. -/
def Effect.Honoured (env : Environment) (callback : AllocatorCall) (capacity : ℕ) :
    Effect → Prop
  | .real call answer => answer ≠ 0 → (call.function callback).returnsPointer = true ∧
      (call.function callback).bytes ≤ capacity ∧ capacity < 2 ^ 64 ∧
      (call.function callback).grantedAlignment env ∣ answer.toNat
  | .bzero _ _ | .memcpy _ _ _ => True

instance (env : Environment) (callback : AllocatorCall) (capacity : ℕ) :
    (e : Effect) → Decidable (e.Honoured env callback capacity)
  | .real _ _ => inferInstanceAs (Decidable (_ → _ ∧ _ ∧ _ ∧ _))
  | .bzero _ _ | .memcpy _ _ _ => inferInstanceAs (Decidable True)

namespace System

variable (env : Environment)

/-- The contracts of the real functions in an event. -/
def Honoured (s : System) (e : AppEvent) : Prop :=
  match e with
  | .call _ _ asked _ capacity =>
      ∀ effect ∈ s.effects env (e.event env), effect.Honoured env asked capacity
  | .patrol _ _ _ | .setWatchState _ => True

instance (s : System) : (e : AppEvent) → Decidable (s.Honoured env e)
  | .call _ _ _ _ _ => inferInstanceAs (Decidable (∀ _ ∈ _, _))
  | .patrol _ _ _ | .setWatchState _ => inferInstanceAs (Decidable True)

/-- The contracts of callers and real allocators, for a wrapped call. -/
def AppAllowed (s : System) (e : AppEvent) : Prop :=
  s.Allowed env (e.event env) ∧ s.Honoured env e

instance (s : System) (e : AppEvent) : Decidable (s.AppAllowed env e) :=
  inferInstanceAs (Decidable (_ ∧ _))

def appNext (s : System) (e : AppEvent) : Option System := s.next env (e.event env)

def AppStep (s : System) (e : AppEvent) (s' : System) : Prop :=
  s.AppAllowed env e ∧ s.appNext env e = some s'

theorem AppStep.step {env : Environment} {s s' : System} {e : AppEvent}
    (h : s.AppStep env e s') : s.Step env (e.event env) s' := ⟨h.1.1, h.2⟩

end System

end AllocCounter
