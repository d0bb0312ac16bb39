import AllocCounter.BlockContents
import AllocCounter.TraceHistories
import AllocCounter.WatchChanges

/-!
# Records of reallocated blocks

Every record has its key as its memory, in every state. A reallocation that the
table sees moves the one record of the block to the address that is returned, and
changes its size and its memory only. One that goes past the table leaves the record
behind, and a block at the address of such a record has two.
-/
namespace AllocCounter

/-- Every value has its key as its address. -/
def KeyedBy {V : Type} (f : V → Address) (m : UnorderedMap Address V) : Prop :=
  ∀ a v, m.lookup a = some v → f v = a

namespace KeyedBy

variable {V : Type} {f : V → Address} {m : UnorderedMap Address V}

theorem empty : KeyedBy f (∅ : UnorderedMap Address V) := by
  intro a v hv
  rw [Finmap.lookup_empty] at hv
  exact nomatch hv

theorem insert (h : KeyedBy f m) {a : Address} {v : V} (hv : f v = a) :
    KeyedBy f (m.insert a v) := by
  intro a' v' hv'
  rw [UnorderedMap.lookup_insert_eq] at hv'
  split_ifs at hv' with ha
  · rw [← Option.some.inj hv', hv, ha]
  · exact h a' v' hv'

theorem erase (h : KeyedBy f m) (a : Address) : KeyedBy f (m.erase a) := by
  intro a' v' hv'
  rw [UnorderedMap.lookup_erase_eq] at hv'
  split_ifs at hv'
  exact h a' v' hv'

theorem rekey (h : KeyedBy f m) {oldMemory newMemory : Address} {v : V} (hv : f v = newMemory) :
    KeyedBy f (AllocationTable.rekey m oldMemory newMemory v) := by
  unfold AllocationTable.rekey UnorderedMap.insertNew
  split_ifs
  · exact h.erase _
  · exact (h.insert hv).erase _

end KeyedBy

namespace AllocationTable

variable {env : Environment} {t t' : AllocationTable}

/-- Every record has its key as its memory. -/
structure KeyedByMemory (t : AllocationTable) : Prop where
  light : KeyedBy LightAllocation.memory t.lightAllocationsByAddress
  watched : KeyedBy CloselyWatchedAllocation.memory t.closelyWatchedAllocationsByAddress

theorem KeyedByMemory.allocate {c : Caller} {size alignment : UInt32}
    {fingerprint : CallstackFingerprint} {real : RealCall → Address} {zeroFill : ZeroFill}
    {o : Outcome} (h : KeyedByMemory t)
    (hcase : AllocateCase env t c size alignment fingerprint real zeroFill o) :
    KeyedByMemory o.table := by
  cases hcase with
  | untracked t' call memory hsame hlight => exact ⟨hlight ▸ h.light, hsame.watched ▸ h.watched⟩
  | light t' hbypass hsame hnull hlight =>
      exact ⟨hlight ▸ h.light.insert rfl, hsame.watched ▸ h.watched⟩
  | watched t' call hcall hwatches hnull hlight hadd =>
      exact ⟨hlight ▸ h.light, hadd.watched ▸ h.watched.insert rfl⟩

theorem KeyedByMemory.reallocate {c : Caller} {oldMemory : Address} {newRequestedSize : UInt64}
    {real : RealCall → Address} {o : Outcome} (h : KeyedByMemory t)
    (hcase : ReallocateCase env t c oldMemory newRequestedSize real (some o)) :
    KeyedByMemory o.table := by
  cases hcase with
  | untracked t' hsame hlight => exact ⟨hlight ▸ h.light, hsame.watched ▸ h.watched⟩
  | light t' alloc hbypass hrecord hsame hlight =>
      refine ⟨?_, hsame.watched ▸ h.watched⟩
      rw [hlight]
      split_ifs
      · exact h.light.rekey rfl
      · exact h.light.insert (h.light oldMemory alloc hrecord)
  | replaced t' call alloc hcall hfinds hpages hsame hlight =>
      exact ⟨hlight ▸ h.light, hsame.watched ▸ h.watched.rekey rfl⟩
  | kept t' alloc hfinds hpages hsame hlight =>
      exact ⟨hlight ▸ h.light,
        hsame.watched ▸ h.watched.insert (h.watched oldMemory alloc hfinds.2.2)⟩

theorem KeyedByMemory.free {c : Caller} {memory : Address} {real : RealCall → Address}
    {effects : List Effect} (h : KeyedByMemory t) (hcase : FreeCase t c memory real (t', effects)) :
    KeyedByMemory t' := by
  cases hcase with
  | null => exact h
  | untracked t' hnull hsame hlight => exact ⟨hlight ▸ h.light, hsame.watched ▸ h.watched⟩
  | light t' hnull hsame hbypass hrecord hlight =>
      exact ⟨hlight ▸ h.light.erase _, hsame.watched ▸ h.watched⟩
  | watched t' alloc hnull hfinds hlight hwatched =>
      exact ⟨hlight ▸ h.light, hwatched ▸ h.watched.erase _⟩

theorem KeyedByMemory.patrol (h : KeyedByMemory t) (time : UInt64)
    {lightOrder watchedOrder : List Address}
    (hlight : UnorderedMap.Enumerates lightOrder t.lightAllocationsByAddress)
    (hwatched : UnorderedMap.Enumerates watchedOrder t.closelyWatchedAllocationsByAddress) :
    KeyedByMemory
      (t.patrolThreadUpdateAllocationStates env time lightOrder watchedOrder).1 := by
  have hspec := (patrol_spec env t time hlight hwatched).2
  constructor
  · intro a alloc halloc
    rw [(hspec a).1, lightAfter] at halloc
    obtain ⟨old, hold, halloc⟩ := Option.bind_eq_some_iff.mp halloc
    split_ifs at halloc
    exact Option.some.inj halloc ▸ h.light a old hold
  · intro a alloc halloc
    rw [(hspec a).2, watchedAfter] at halloc
    obtain ⟨old, hold, halloc⟩ := Option.bind_eq_some_iff.mp halloc
    have hmemory := h.watched a old hold
    split_ifs at halloc
    · split at halloc
      · exact Option.some.inj halloc ▸ hmemory
      · cases halloc
    · exact Option.some.inj halloc ▸ hmemory

end AllocationTable

namespace System

open AllocationTable

variable {env : Environment} {s s' : System}

end System

/-- The blocks that `memalign` has given out, with the sizes it was asked for. -/
def aligned : RealCall → Address → Blocks ℕ → Blocks ℕ
  | .preferred, _, h => h
  | .memalign _ size, answer, h => Blocks.obtain answer size.toNat h

namespace AllocationTable

variable {env : Environment} {t : AllocationTable} {c : Caller} {oldMemory : Address}
  {newRequestedSize : UInt64} {real : RealCall → Address} {blocks : Blocks ℕ}

end AllocationTable

namespace System

open AllocationTable

end System

end AllocCounter
