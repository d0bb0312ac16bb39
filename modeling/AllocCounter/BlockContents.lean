import AllocCounter.Conservation

/-!
# The bytes of reallocated blocks

Blocks as arrays of bytes, and what the effects of a call do to them. The copy to
the block that replaces a closely watched one takes its length from the old
requested size, so it stays inside the new block exactly when that has at least
as many pages.
-/
namespace AllocCounter

abbrev Contents := Blocks (List UInt8)

/-- `none` is an access past the end of a block, or to no block at all. -/
def bzero (memory : Address) (size : ℕ) (h : Contents) : Option Contents :=
  match h memory with
  | none => none
  | some bytes =>
      if size ≤ bytes.length then
        some (Function.update h memory (some (List.replicate size 0 ++ bytes.drop size)))
      else none

/-- `none` is a read past the end of the source or a write past the end of the
destination, or an access to no block at all. -/
def memcpy (destination source : Address) (size : ℕ) (h : Contents) : Option Contents :=
  match h source, h destination with
  | some src, some dst =>
      if size ≤ src.length ∧ size ≤ dst.length then
        some (Function.update h destination (some (src.take size ++ dst.drop size)))
      else none
  | _, _ => none

/-- What an effect does to the blocks, where a real call allocates a block of the
bytes `fresh`. -/
def Effect.onBytes (fresh : List UInt8) (h : Contents) : Effect → Option Contents
  | .real _ answer => some (Blocks.obtain answer fresh h)
  | .bzero memory size => AllocCounter.bzero memory size.toNat h
  | .memcpy destination source size => AllocCounter.memcpy destination source size.toNat h

theorem memcpy_of_le {destination source : Address} {size : ℕ} {h : Contents}
    {src dst : List UInt8} (hsrc : h source = some src) (hdst : h destination = some dst)
    (hread : size ≤ src.length) : memcpy destination source size h =
      if size ≤ dst.length then
        some (Function.update h destination (some (src.take size ++ dst.drop size)))
      else none := by
  simp only [memcpy, hsrc, hdst, hread, true_and]

namespace Environment

variable (env : Environment)

/-- A size fits in the pages of another one if and only if it takes no more. -/
theorem le_roundUp_iff {m n : UInt32} (hm : m.toNat + env.pageSize.toNat ≤ 2 ^ 32)
    (hn : n.toNat + env.pageSize.toNat ≤ 2 ^ 32) :
    m.toNat ≤ (env.roundUpToPageMultiple n).toNat ↔
      (env.roundUpToPageMultiple m).toNat ≤ (env.roundUpToPageMultiple n).toNat := by
  obtain ⟨⟨hle, -⟩, hleast⟩ := env.isLeast_roundUpToPageMultiple hm
  obtain ⟨⟨-, hdvd⟩, -⟩ := env.isLeast_roundUpToPageMultiple hn
  exact ⟨fun h => hleast ⟨h, hdvd⟩, hle.trans⟩

end Environment

namespace AllocationTable

variable (env : Environment)

/-- The call makes no access past the end of a block, and the block it returns
starts with the bytes of the old one, up to the smaller size. -/
def CopiesRight (t : AllocationTable) (c : Caller) (oldMemory : Address)
    (alloc : CloselyWatchedAllocation) (newRequestedSize : UInt64) (answer : Address)
    (fresh : List UInt8) (h : Contents) : Prop :=
  ∃ o h' old block, t.instrumentedReallocate env c oldMemory newRequestedSize (fun _ => answer) =
      some o ∧
    o.effects.foldlM (Effect.onBytes fresh) h = some h' ∧ h oldMemory = some old ∧
    h' o.memory = some block ∧
    block.take (min alloc.requestedSize.toNat newRequestedSize.toNat) =
      old.take (min alloc.requestedSize.toNat newRequestedSize.toNat)

variable {env} {t : AllocationTable} {c : Caller} {oldMemory answer : Address}
  {alloc : CloselyWatchedAllocation} {newRequestedSize : UInt64} {fresh old : List UInt8}
  {h : Contents}

/-- Where the block is replaced, the copy is right exactly when it fits. -/
theorem copiesRight_iff_fits (hfinds : t.FindsWatched c oldMemory alloc)
    (hold : h oldMemory = some old) (hlen : alloc.requestedSize.toNat ≤ old.length)
    (hnull : answer ≠ 0) (hnew : h answer = none) :
    CopiesRight env t c oldMemory alloc newRequestedSize answer fresh h ↔
      (Repaginates env alloc newRequestedSize → alloc.requestedSize.toNat ≤ fresh.length) := by
  obtain ⟨hbypass, hlight, hwatched⟩ := hfinds
  have hne : oldMemory ≠ answer := by
    intro heq
    rw [heq, hnew] at hold
    exact nomatch hold
  unfold CopiesRight instrumentedReallocate
  rw [if_neg hbypass]
  simp only [hlight, hwatched]
  by_cases hpages : Repaginates env alloc newRequestedSize
  · rw [if_pos fun heq => hpages (UInt32.toUInt64_inj.mp heq), if_neg fun hcrash => hnull hcrash.1]
    have hcopy : memcpy answer oldMemory alloc.requestedSize.toNat (Blocks.obtain answer fresh h) =
        if alloc.requestedSize.toNat ≤ fresh.length then
          some (Function.update (Blocks.obtain answer fresh h) answer
            (some (old.take alloc.requestedSize.toNat ++ fresh.drop alloc.requestedSize.toNat)))
        else none :=
      memcpy_of_le ((Blocks.obtain_of_ne _ _ hne).trans hold) (Blocks.obtain_self hnull _ _) hlen
    constructor
    · intro ⟨o, h', _, _, ho, hrun, _⟩ _
      rw [← Option.some.inj ho] at hrun
      simp only [List.foldlM_cons, List.foldlM_nil, Effect.onBytes, Option.bind_eq_bind,
        Option.bind_some, hcopy] at hrun
      by_contra hfits
      rw [if_neg hfits] at hrun
      exact nomatch hrun
    · intro hfits
      refine ⟨_, _, old, old.take alloc.requestedSize.toNat ++ fresh.drop alloc.requestedSize.toNat,
        rfl, ?_, hold, Function.update_self answer _ (Blocks.obtain answer fresh h), ?_⟩
      · simp only [List.foldlM_cons, List.foldlM_nil, Effect.onBytes, Option.bind_eq_bind,
          Option.bind_some, hcopy]
        rw [if_pos (hfits hpages)]
        rfl
      · rw [List.take_append_of_le_length (by
          rw [List.length_take, Nat.min_eq_left hlen]
          exact Nat.min_le_left _ _), List.take_take, Nat.min_eq_left (Nat.min_le_left _ _)]
  · rw [if_neg (not_not.mpr (congrArg UInt32.toUInt64 (not_not.mp hpages)))]
    exact iff_of_true ⟨_, h, old, old, rfl, rfl, hold, hold, rfl⟩ fun hnot => absurd hnot hpages

/-- For every closely watched record of `m` bytes and every new size of `n` bytes,
both with room for a page below `2 ^ 32`, with blocks of whole pages and a
`memalign` that returns a new one: no access is out of bounds and the first
`min m n` bytes are kept if and only if the new block has at least as many pages. -/
theorem copies_right_iff_pages (hfinds : t.FindsWatched c oldMemory alloc)
    (hm : alloc.requestedSize.toNat + env.pageSize.toNat ≤ 2 ^ 32)
    (hn : newRequestedSize.toNat + env.pageSize.toNat ≤ 2 ^ 32)
    (hold : h oldMemory = some old)
    (hactual : old.length = (env.roundUpToPageMultiple alloc.requestedSize).toNat)
    (hnull : answer ≠ 0) (hnew : h answer = none)
    (hfresh : fresh.length = (env.roundUpToPageMultiple newRequestedSize.toUInt32).toNat) :
    CopiesRight env t c oldMemory alloc newRequestedSize answer fresh h ↔
      (env.roundUpToPageMultiple alloc.requestedSize).toNat ≤
        (env.roundUpToPageMultiple newRequestedSize.toUInt32).toNat := by
  have hpos := env.pageSize_pos
  have hn' : newRequestedSize.toUInt32.toNat + env.pageSize.toNat ≤ 2 ^ 32 := by
    rwa [UInt64.toNat_toUInt32, Nat.mod_eq_of_lt (by omega)]
  have hlen : alloc.requestedSize.toNat ≤ old.length :=
    hactual ▸ (env.le_roundUpToPageMultiple_iff alloc.requestedSize).mpr hm
  rw [copiesRight_iff_fits hfinds hold hlen hnull hnew, hfresh, env.le_roundUp_iff hm hn']
  constructor
  · intro hfits
    by_cases hpages : Repaginates env alloc newRequestedSize
    · exact hfits hpages
    · exact (congrArg UInt32.toNat (not_not.mp hpages)).ge
  · exact fun hle _ => hle

end AllocationTable

namespace System

open AllocationTable

/-- A light allocation outlives its time, and from the same stack follows a closely
watched one of 5000 bytes, in two pages. -/
def twoPagesRun : Execution Initial (Step .default) :=
  Execution.ofEvents
    [.setWatchState .watching,
      .allocate (callerAt 0) ⟨8, 1, 7, .unnecessary⟩ 0x1000 8,
      .patrol 31 [0x1000] [],
      .allocate (callerAt 40) ⟨5000, 1, 7, .unnecessary⟩ 0x2000 8192]
    (.setWatchState .watching) initial_start (by decide +kernel)

def twoPagesRecord : CloselyWatchedAllocation := ⟨0x2000, 5000, 70, .notYetSuspicious, 40, ⟨7, ⟨[1]⟩⟩⟩

theorem findsWatched_twoPagesRun :
    (twoPagesRun.state 4).table.FindsWatched (callerAt 41) 0x2000 twoPagesRecord := by
  unfold FindsWatched
  decide +kernel

/-- The two pages of the block. -/
def twoPages : Contents := Function.update (fun _ => none) 0x2000 (some (List.replicate 8192 7))

theorem twoPages_old : twoPages 0x2000 = some (List.replicate 8192 7) := Function.update_self _ _ _

theorem twoPages_new : twoPages 0x5000 = none := Function.update_of_ne (by decide) _ _

/-- Three pages are enough for the bytes of two. -/
theorem copies_right_iff_pages_grown :
    CopiesRight .default (twoPagesRun.state 4).table (callerAt 41) 0x2000 twoPagesRecord 9000 0x5000
      (List.replicate 12288 0) twoPages :=
  (copies_right_iff_pages findsWatched_twoPagesRun (by decide) (by decide) twoPages_old
    List.length_replicate (by decide) twoPages_new List.length_replicate).mpr (by decide)

/-- When the block shrinks to one page, the copy of 5000 bytes runs past it. -/
theorem not_copies_right_shrunk :
    ¬ ∀ (x : Execution Initial (Step .default)), ∀ i ≤ x.length, ∀ c oldMemory alloc,
      (x.state i).table.FindsWatched c oldMemory alloc →
      ∀ (newRequestedSize : UInt64) answer fresh h old, 0 < newRequestedSize.toNat →
      alloc.requestedSize.toNat + 4096 ≤ 2 ^ 32 → newRequestedSize.toNat + 4096 ≤ 2 ^ 32 →
      h oldMemory = some old →
      old.length = (Environment.default.roundUpToPageMultiple alloc.requestedSize).toNat →
      answer ≠ 0 → h answer = none →
      fresh.length =
        (Environment.default.roundUpToPageMultiple newRequestedSize.toUInt32).toNat →
      CopiesRight .default (x.state i).table c oldMemory alloc newRequestedSize answer fresh h := by
  intro hclaim
  have hcopies := hclaim twoPagesRun 4 le_rfl _ _ _ findsWatched_twoPagesRun 100 0x5000
    (List.replicate 4096 0) twoPages _ (by decide) (by decide) (by decide) twoPages_old
    List.length_replicate (by decide) twoPages_new List.length_replicate
  have hfits := (copiesRight_iff_fits findsWatched_twoPagesRun twoPages_old
    (by rw [List.length_replicate]; decide) (by decide) twoPages_new).mp hcopies (by decide)
  rw [List.length_replicate] at hfits
  exact absurd hfits (by decide)

end System

end AllocCounter
