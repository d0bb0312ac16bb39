import AllocCounter.TrackedBlocks

/-!
# Conservation of closely watched allocations

Per stack trace, what was ever closely watched is live, leaked or was freed while
watched, and the live counters count records. The books are kept by every call
as long as allocations are counted below `2 ^ 32`, so no counter wraps.
-/
namespace AllocCounter

namespace AllocationTable

variable {t t' : AllocationTable} {freed : TraceEntry → ℕ} {n : ℕ}

theorem toNat_add_ite {x : UInt32} (p : Prop) [Decidable p] (h : x.toNat + 1 < 2 ^ 32) :
    (x + if p then 1 else 0).toNat = x.toNat + if p then 1 else 0 := by
  split_ifs
  · rw [UInt32.toNat_add, Nat.mod_eq_of_lt (by exact h)]
    rfl
  · simp

theorem toNat_sub_ite {x : UInt32} (p : Prop) [Decidable p] (h : p → 0 < x.toNat) :
    (x - if p then 1 else 0).toNat = x.toNat - if p then 1 else 0 := by
  split_ifs with hp
  · exact UInt32.toNat_sub_of_le _ _ (UInt32.le_iff_toNat_le.mpr (h hp))
  · simp

/-- Every record points to an entry, and the live counters count the records. -/
structure LiveCounts (t : AllocationTable) : Prop where
  known : ∀ a alloc, t.closelyWatchedAllocationsByAddress.lookup a = some alloc →
    t.Known alloc.watchedStackTraceInfo
  live : ∀ w, (t.info w).countLiveCloselyWatchedAllocations.toNat =
    UnorderedMap.count (PointsTo w) t.closelyWatchedAllocationsByAddress
  global : t.countLiveCloselyWatchedAllocationsAllTraces.toNat =
    UnorderedMap.size t.closelyWatchedAllocationsByAddress

theorem liveCounts_empty : LiveCounts .empty where
  known _ _ h := nomatch h
  live _ := rfl
  global := rfl

theorem LiveCounts.same (h : LiveCounts t) (hsame : SameCounters t t') : LiveCounts t' where
  known a alloc ha := hsame.known _ (h.known a alloc (hsame.watched ▸ ha))
  live w := by rw [hsame.live, hsame.watched, h.live]
  global := by rw [hsame.global, hsame.watched, h.global]

/-- A new record, where the counters have room. -/
theorem LiveCounts.add (h : LiveCounts t) {memory : Address} {alloc : CloselyWatchedAllocation}
    (hnew : t.closelyWatchedAllocationsByAddress.lookup memory = none)
    (hadd : AddsWatched t t' memory alloc)
    (hlive : ∀ w, PointsTo w alloc →
      (t.info w).countLiveCloselyWatchedAllocations.toNat + 1 < 2 ^ 32)
    (hglobal : t.countLiveCloselyWatchedAllocationsAllTraces.toNat + 1 < 2 ^ 32) :
    LiveCounts t' := by
  refine ⟨fun a r hr => ?_, fun w => ?_, ?_⟩
  · rw [hadd.watched, UnorderedMap.lookup_insert_eq] at hr
    split_ifs at hr
    · rw [← Option.some.inj hr]
      exact hadd.entry
    · exact hadd.known _ (h.known a r hr)
  · rw [hadd.live, hadd.watched, UnorderedMap.count_insert _ hnew, ← h.live]
    by_cases hw : PointsTo w alloc
    · exact toNat_add_ite _ (hlive w hw)
    · simp [hw]
  · have hincrement := toNat_add_ite True hglobal
    rw [if_pos trivial, if_pos trivial] at hincrement
    rw [hadd.global, hadd.watched, UnorderedMap.size_insert hnew, ← h.global, hincrement]

theorem count_remove {memory : Address} {alloc : CloselyWatchedAllocation}
    {leak : Prop} [Decidable leak]
    (hold : t.closelyWatchedAllocationsByAddress.lookup memory = some alloc)
    (hremove : RemovesWatched t t' memory alloc leak) (w : TraceEntry) :
    UnorderedMap.count (PointsTo w) t.closelyWatchedAllocationsByAddress =
      UnorderedMap.count (PointsTo w) t'.closelyWatchedAllocationsByAddress +
        if PointsTo w alloc then 1 else 0 := by
  rw [hremove.watched]
  exact UnorderedMap.count_erase _ hold

/-- The counters that a removal decrements are not zero. -/
theorem LiveCounts.live_pos (h : LiveCounts t) {memory : Address}
    {alloc : CloselyWatchedAllocation}
    (hold : t.closelyWatchedAllocationsByAddress.lookup memory = some alloc) {w : TraceEntry}
    (hw : PointsTo w alloc) : 0 < (t.info w).countLiveCloselyWatchedAllocations.toNat := by
  rw [h.live, UnorderedMap.count_erase _ hold, if_pos hw]
  exact Nat.succ_pos _

theorem LiveCounts.remove (h : LiveCounts t) {memory : Address} {alloc : CloselyWatchedAllocation}
    {leak : Prop} [Decidable leak]
    (hold : t.closelyWatchedAllocationsByAddress.lookup memory = some alloc)
    (hremove : RemovesWatched t t' memory alloc leak) : LiveCounts t' := by
  refine ⟨fun a r hr => ?_, fun w => ?_, ?_⟩
  · rw [hremove.watched, UnorderedMap.lookup_erase_eq] at hr
    split_ifs at hr
    exact hremove.known _ (h.known a r hr)
  · rw [hremove.live, toNat_sub_ite _ (h.live_pos hold), h.live, count_remove hold hremove w,
      Nat.add_sub_cancel]
  · have hsize := UnorderedMap.size_erase hold
    have hone : (1 : UInt32).toNat = 1 := rfl
    rw [hremove.global, hremove.watched, UInt32.toNat_sub_of_le _ _ (UInt32.le_iff_toNat_le.mpr (by
      rw [h.global, hsize]; exact Nat.le_add_left 1 _)), h.global, hsize, hone, Nat.add_sub_cancel]

/-- A record that changes in place. -/
theorem LiveCounts.update (h : LiveCounts t) {memory : Address}
    {alloc alloc' : CloselyWatchedAllocation}
    (hold : t.closelyWatchedAllocationsByAddress.lookup memory = some alloc)
    (hentry : alloc'.watchedStackTraceInfo = alloc.watchedStackTraceInfo) :
    LiveCounts { t with
      closelyWatchedAllocationsByAddress :=
        t.closelyWatchedAllocationsByAddress.insert memory alloc' } where
  known a r hr := by
    dsimp only at hr
    rw [UnorderedMap.lookup_insert_eq] at hr
    split_ifs at hr
    · rw [← Option.some.inj hr, hentry]
      exact h.known memory alloc hold
    · exact h.known a r hr
  live w := by
    have hcount := UnorderedMap.count_replace (PointsTo w) alloc' hold
    have hiff : PointsTo w alloc' ↔ PointsTo w alloc := by rw [PointsTo, hentry, PointsTo]
    simp only [hiff] at hcount
    exact (h.live w).trans (Nat.add_right_cancel hcount).symm
  global := h.global.trans (UnorderedMap.size_replace hold).symm

/-- A record that moves to a key that is not in use. -/
theorem rekey_spec {oldMemory newMemory : Address} {alloc alloc' : CloselyWatchedAllocation}
    (hold : t.closelyWatchedAllocationsByAddress.lookup oldMemory = some alloc)
    (hnew : t.closelyWatchedAllocationsByAddress.lookup newMemory = none)
    (hentry : alloc'.watchedStackTraceInfo = alloc.watchedStackTraceInfo) :
    (∀ w, UnorderedMap.count (PointsTo w)
        (rekey t.closelyWatchedAllocationsByAddress oldMemory newMemory alloc') =
      UnorderedMap.count (PointsTo w) t.closelyWatchedAllocationsByAddress) ∧
    UnorderedMap.size (rekey t.closelyWatchedAllocationsByAddress oldMemory newMemory alloc') =
      UnorderedMap.size t.closelyWatchedAllocationsByAddress := by
  have hne : oldMemory ≠ newMemory := by
    intro heq
    rw [heq, hnew] at hold
    exact nomatch hold
  have hkept : (t.closelyWatchedAllocationsByAddress.insert newMemory alloc').lookup oldMemory =
      some alloc := by
    rw [Finmap.lookup_insert_of_ne _ hne, hold]
  have hmap : rekey t.closelyWatchedAllocationsByAddress oldMemory newMemory alloc' =
      (t.closelyWatchedAllocationsByAddress.insert newMemory alloc').erase oldMemory := by
    rw [AllocationTable.rekey, UnorderedMap.insertNew_of_notMem hnew]
  rw [hmap]
  constructor
  · intro w
    have hcount := (UnorderedMap.count_insert (PointsTo w) (v := alloc') hnew).symm.trans
      (UnorderedMap.count_erase (PointsTo w) hkept)
    have hiff : PointsTo w alloc' ↔ PointsTo w alloc := by rw [PointsTo, hentry, PointsTo]
    simp only [hiff] at hcount
    exact (Nat.add_right_cancel hcount).symm
  · have hsize := (UnorderedMap.size_insert (v := alloc') hnew).symm.trans
      (UnorderedMap.size_erase hkept)
    exact (Nat.add_right_cancel hsize).symm

theorem LiveCounts.rekeyed (h : LiveCounts t) {oldMemory newMemory : Address}
    {alloc alloc' : CloselyWatchedAllocation}
    (hold : t.closelyWatchedAllocationsByAddress.lookup oldMemory = some alloc)
    (hnew : t.closelyWatchedAllocationsByAddress.lookup newMemory = none)
    (hentry : alloc'.watchedStackTraceInfo = alloc.watchedStackTraceInfo) :
    LiveCounts { t with
      closelyWatchedAllocationsByAddress :=
        rekey t.closelyWatchedAllocationsByAddress oldMemory newMemory alloc' } := by
  have ⟨hcount, hsize⟩ := rekey_spec hold hnew hentry
  refine ⟨fun a r hr => ?_, fun w => (h.live w).trans (hcount w).symm, h.global.trans hsize.symm⟩
  dsimp only at hr
  rw [lookup_rekey] at hr
  split_ifs at hr with hgone hmoved
  · rw [hmoved, hnew, Option.getD_none] at hr
    rw [← Option.some.inj hr, hentry]
    exact h.known oldMemory alloc hold
  · exact h.known a r hr

/-- The counters agree with the records, `freed` allocations having been freed
while watched and at most `n` having been made. -/
structure Books (t : AllocationTable) (freed : TraceEntry → ℕ) (n : ℕ) : Prop where
  known : ∀ a alloc, t.closelyWatchedAllocationsByAddress.lookup a = some alloc →
    t.Known alloc.watchedStackTraceInfo
  live : ∀ w, (t.info w).countLiveCloselyWatchedAllocations.toNat =
    UnorderedMap.count (PointsTo w) t.closelyWatchedAllocationsByAddress
  global : t.countLiveCloselyWatchedAllocationsAllTraces.toNat =
    UnorderedMap.size t.closelyWatchedAllocationsByAddress
  created : ∀ w, (t.info w).countTotalCloselyWatchedAllocationsEverCreated.toNat =
    (t.info w).countLiveCloselyWatchedAllocations.toNat +
      (t.info w).countLeakedCloselyWatchedAllocations.toNat + freed w
  created_le : ∀ w, (t.info w).countTotalCloselyWatchedAllocationsEverCreated.toNat ≤ n
  size_le : UnorderedMap.size t.closelyWatchedAllocationsByAddress ≤ n

theorem Books.liveCounts (h : Books t freed n) : LiveCounts t := ⟨h.known, h.live, h.global⟩

theorem books_empty : Books .empty (fun _ => 0) 0 where
  known _ _ h := nomatch h
  live _ := rfl
  global := rfl
  created _ := rfl
  created_le _ := le_rfl
  size_le := le_rfl

theorem Books.mono (h : Books t freed n) {m : ℕ} (hm : n ≤ m) : Books t freed m :=
  { h with
    created_le := fun w => (h.created_le w).trans hm
    size_le := h.size_le.trans hm }

theorem Books.same (h : Books t freed n) (hsame : SameCounters t t') : Books t' freed n :=
  { h.liveCounts.same hsame with
    created := fun w => by rw [hsame.created, hsame.live, hsame.leaked, h.created]
    created_le := fun w => by rw [hsame.created]; exact h.created_le w
    size_le := by rw [hsame.watched]; exact h.size_le }

theorem Books.add (h : Books t freed n) {memory : Address} {alloc : CloselyWatchedAllocation}
    (hnew : t.closelyWatchedAllocationsByAddress.lookup memory = none)
    (hadd : AddsWatched t t' memory alloc) (hn : n + 1 < 2 ^ 32) : Books t' freed (n + 1) := by
  have hbound : ∀ w, (t.info w).countLiveCloselyWatchedAllocations.toNat + 1 < 2 ^ 32 := by
    intro w
    have := h.created w
    have := h.created_le w
    omega
  have hglobal := h.global.trans_le h.size_le
  have hcounts := h.liveCounts.add hnew hadd (fun w _ => hbound w) (by omega)
  have hcreated : ∀ w, _ := fun w => (congrArg UInt32.toNat (hadd.created w)).trans
    (toNat_add_ite _ (by have := h.created_le w; omega))
  have hlive : ∀ w, _ := fun w => (congrArg UInt32.toNat (hadd.live w)).trans
    (toNat_add_ite _ (hbound w))
  refine { hcounts with created := fun w => ?_, created_le := fun w => ?_, size_le := ?_ }
  · rw [hcreated, hlive, hadd.leaked, h.created]
    omega
  · rw [hcreated]
    have := h.created_le w
    split_ifs <;> omega
  · rw [hadd.watched, UnorderedMap.size_insert hnew]
    exact Nat.succ_le_succ h.size_le

/-- The leaked counter has room for the allocation that leaves. -/
theorem Books.leaked_remove (h : Books t freed n) {memory : Address}
    {alloc : CloselyWatchedAllocation} {leak : Prop} [Decidable leak]
    (hold : t.closelyWatchedAllocationsByAddress.lookup memory = some alloc)
    (hremove : RemovesWatched t t' memory alloc leak) (hn : n < 2 ^ 32) (w : TraceEntry) :
    (t'.info w).countLeakedCloselyWatchedAllocations.toNat =
      (t.info w).countLeakedCloselyWatchedAllocations.toNat +
        if leak ∧ PointsTo w alloc then 1 else 0 := by
  rw [hremove.leaked]
  by_cases hw : leak ∧ PointsTo w alloc
  · have := h.liveCounts.live_pos hold hw.2
    have := h.created w
    have := h.created_le w
    exact toNat_add_ite _ (by omega)
  · simp [hw]

/-- An allocation that leaves the books is a leak, or is freed. -/
theorem Books.remove (h : Books t freed n) {memory : Address} {alloc : CloselyWatchedAllocation}
    {leak : Prop} [Decidable leak]
    (hold : t.closelyWatchedAllocationsByAddress.lookup memory = some alloc)
    (hremove : RemovesWatched t t' memory alloc leak) (hn : n < 2 ^ 32) :
    Books t' (fun w => freed w + if ¬ leak ∧ PointsTo w alloc then 1 else 0) n := by
  have hcounts := h.liveCounts.remove hold hremove
  have hpos : ∀ w, PointsTo w alloc → _ := fun w hw => h.liveCounts.live_pos hold hw
  have hlive : ∀ w, _ := fun w => (congrArg UInt32.toNat (hremove.live w)).trans
    (toNat_sub_ite _ (hpos w))
  refine { hcounts with created := fun w => ?_, created_le := fun w => ?_, size_le := ?_ }
  · have := h.created w
    have := hpos w
    rw [hremove.created, hlive, h.leaked_remove hold hremove hn]
    by_cases hw : PointsTo w alloc <;> by_cases hl : leak <;> simp [hw, hl] at * <;> omega
  · rw [hremove.created]
    exact h.created_le w
  · have hsize := UnorderedMap.size_erase hold
    have := h.size_le
    rw [hremove.watched]
    omega

theorem Books.update (h : Books t freed n) {memory : Address}
    {alloc alloc' : CloselyWatchedAllocation}
    (hold : t.closelyWatchedAllocationsByAddress.lookup memory = some alloc)
    (hentry : alloc'.watchedStackTraceInfo = alloc.watchedStackTraceInfo) :
    Books { t with
      closelyWatchedAllocationsByAddress :=
        t.closelyWatchedAllocationsByAddress.insert memory alloc' } freed n :=
  { h.liveCounts.update hold hentry with
    created := h.created
    created_le := h.created_le
    size_le := (UnorderedMap.size_replace hold).trans_le h.size_le }

theorem Books.rekeyed (h : Books t freed n) {oldMemory newMemory : Address}
    {alloc alloc' : CloselyWatchedAllocation}
    (hold : t.closelyWatchedAllocationsByAddress.lookup oldMemory = some alloc)
    (hnew : t.closelyWatchedAllocationsByAddress.lookup newMemory = none)
    (hentry : alloc'.watchedStackTraceInfo = alloc.watchedStackTraceInfo) :
    Books { t with
      closelyWatchedAllocationsByAddress :=
        rekey t.closelyWatchedAllocationsByAddress oldMemory newMemory alloc' } freed n :=
  { h.liveCounts.rekeyed hold hnew hentry with
    created := h.created
    created_le := h.created_le
    size_le := (rekey_spec hold hnew hentry).2.trans_le h.size_le }

/-- The visits of the patrol keep the books, and free nothing. -/
theorem Books.visit (h : Books t freed n) {key : Address} (hn : n < 2 ^ 32)
    (hvisit : VisitCase t key t') : Books t' freed n := by
  cases hvisit with
  | kept => exact h
  | moved alloc alloc' hkey hentry => exact h.update hkey hentry
  | leaked t' alloc hkey hremove =>
      simpa using h.remove hkey (hremove (h.known key alloc hkey)) hn

/-- A property that visits keep, over the second loop. -/
theorem foldl_patrolWatched_induction (env : Environment) (now : UInt32)
    {P : AllocationTable → Prop}
    (hvisit : ∀ t key t', P t → VisitCase t key t' → P t') (order : List Address)
    (s : AllocationTable × List FoundLeak) (h : P s.1) :
    P (order.foldl (patrolWatched env now) s).1 := by
  induction order generalizing s with
  | nil => exact h
  | cons key rest ih => exact ih _ (hvisit _ key _ h (patrolWatched_visit env now s key))

theorem Books.patrol (h : Books t freed n) (hn : n < 2 ^ 32) (env : Environment) (time : UInt64)
    {lightOrder : List Address} (watchedOrder : List Address)
    (hlight : UnorderedMap.Enumerates lightOrder t.lightAllocationsByAddress) :
    Books (t.patrolThreadUpdateAllocationStates env time lightOrder watchedOrder).1 freed n :=
  foldl_patrolWatched_induction env time.toUInt32 (P := fun t => Books t freed n)
    (fun _ _ _ h hvisit => h.visit hn hvisit) watchedOrder _
    (h.same (foldl_patrolLight time.toUInt32 t hlight).1)

end AllocationTable

namespace System

open AllocationTable

variable {env : Environment}

/-- The event frees a closely watched allocation of `w` while watching. -/
def FreesWatched (w : TraceEntry) (s : System) : Event → Prop
  | .free c memory _ _ _ => memory ≠ 0 ∧ ¬ Bypasses c ∧
      s.table.lightAllocationsByAddress.lookup memory = none ∧
      (s.table.closelyWatchedAllocationsByAddress.lookup memory).map
        CloselyWatchedAllocation.watchedStackTraceInfo = some w
  | _ => False

instance (w : TraceEntry) (s : System) : (e : Event) → Decidable (FreesWatched w s e)
  | .free _ _ _ _ _ => inferInstanceAs (Decidable (_ ∧ _ ∧ _ ∧ _))
  | .setWatchState _ | .allocate _ _ _ _ | .reallocate _ _ _ _ _ | .patrol _ _ _ =>
      inferInstanceAs (Decidable False)

/-- The event is an allocation that the table sees. -/
def Allocates (_ : System) : Event → Prop
  | .allocate c _ _ _ => ¬ Bypasses c
  | _ => False

instance (s : System) : (e : Event) → Decidable (Allocates s e)
  | .allocate _ _ _ _ => inferInstanceAs (Decidable (¬ _))
  | .setWatchState _ | .free _ _ _ _ _ | .reallocate _ _ _ _ _ | .patrol _ _ _ =>
      inferInstanceAs (Decidable False)

/-- One step keeps the books. -/
theorem books_step {s s' : System} {e : Event} {freed : TraceEntry → ℕ} {n : ℕ}
    (h : s.Consistent) (hbooks : Books s.table freed n) (hreplace : s.ReplacementSucceeds env e)
    (hn : n + (if Allocates s e then 1 else 0) < 2 ^ 32) (hstep : s.Step env e s') :
    Books s'.table (fun w => freed w + if FreesWatched w s e then 1 else 0)
      (n + if Allocates s e then 1 else 0) := by
  cases e with
  | setWatchState w =>
      have hs' := (Option.some.inj hstep.2).symm
      subst hs'
      simpa [FreesWatched, Allocates] using hbooks
  | allocate c r answer capacity =>
      obtain ⟨-, hfresh, effects, t', hcase, rfl⟩ := step_allocate hstep
      cases hcase with
      | untracked t' call memory hsame => exact (hbooks.same hsame).mono (Nat.le_add_right n _)
      | light t' hbypass hsame => exact (hbooks.same hsame).mono (Nat.le_add_right n _)
      | watched t' call hcall hwatches hnull hlight hadd =>
          have hcounted : Allocates s (.allocate c r answer capacity) := hwatches.1
          rw [if_pos hcounted] at hn ⊢
          exact hbooks.add (h.untracked_of_fresh hnull hfresh).2 hadd hn
  | reallocate c oldMemory newRequestedSize answer capacity =>
      obtain ⟨-, hanswer, b, o, hb, -, hcase, rfl⟩ := step_reallocate hstep
      cases hcase with
      | untracked t' hsame => exact hbooks.same hsame
      | light t' alloc hbypass hrecord hsame => exact hbooks.same hsame
      | replaced t' call alloc hcall hfinds hpages hsame =>
          have hreplaces : s.Replaces env c oldMemory newRequestedSize := ⟨alloc, hfinds, hpages⟩
          have hfresh : s.Fresh answer :=
            hanswer.resolve_right fun hkept => hkept.2 hreplaces
          have hnone := h.untracked_of_fresh (hreplace hreplaces) hfresh
          refine Books.same ?_ hsame
          exact hbooks.rekeyed hfinds.2.2 hnone.2 rfl
      | kept t' alloc hfinds hpages hsame =>
          refine Books.same ?_ hsame
          exact hbooks.update hfinds.2.2 rfl
  | free c memory released answer capacity =>
      obtain ⟨-, -, -, effects, t', hcase, rfl⟩ := step_free hstep
      change Books t' _ n
      cases hcase with
      | null hnull => simpa [FreesWatched, hnull] using hbooks
      | untracked t' hnull hsame hlight hrecord =>
          have hnot : ∀ w, ¬ FreesWatched w s (.free c memory released answer capacity) := by
            intro w ⟨_, hwatching, _, hw⟩
            have hnone := (hrecord.resolve_left hwatching).2
            rw [hnone] at hw
            exact nomatch hw
          simpa [hnot] using hbooks.same hsame
      | light t' hnull hsame hbypass hrecord =>
          have hnot : ∀ w, ¬ FreesWatched w s (.free c memory released answer capacity) := by
            intro w ⟨_, _, hnone, _⟩
            exact Finmap.lookup_eq_none.mp hnone hrecord
          simpa [hnot] using hbooks.same hsame
      | watched t' alloc hnull hfinds hlight hwatched hremove =>
          have hiff : ∀ w, FreesWatched w s (.free c memory released answer capacity) ↔
              PointsTo w alloc := by
            intro w
            simp [FreesWatched, PointsTo, hnull, hfinds.1, hfinds.2.1, hfinds.2.2]
          simpa [hiff] using hbooks.remove hfinds.2.2 (hremove (hbooks.known _ _ hfinds.2.2)) hn
  | patrol time lightOrder watchedOrder =>
      obtain ⟨hlight, -, rfl⟩ := step_patrol hstep
      exact hbooks.patrol hn env time watchedOrder hlight

/-- The books in every state of a run. -/
theorem books_at (x : Execution Initial (Step env)) (hway : OneWay x)
    (hreplace : ∀ i < x.length, (x.state i).ReplacementSucceeds env (x.event i))
    (hcount : x.occurrences Allocates x.length < 2 ^ 32) :
    ∀ i ≤ x.length, Books (x.state i).table (fun w => x.occurrences (FreesWatched w) i)
      (x.occurrences Allocates i) := by
  refine x.holds_at _ ?_ fun i hi h => ?_
  · rw [x.starts.table]
    exact books_empty
  · have hle : x.occurrences Allocates (i + 1) ≤ x.occurrences Allocates x.length :=
      x.occurrences_mono Allocates hi
    simp only [x.occurrences_succ] at hle ⊢
    exact books_step (consistent_at x hway.synced i hi.le) h (hreplace i hi)
      (hle.trans_lt hcount) (x.steps i hi)

/-- In every state of every run with a one-way start signal and fewer than
`2 ^ 32` allocations, for every entry of the suspicious tables: the live counter
is the number of records that point to the entry, the global one the number of
records, and what was ever created is live, leaked or was freed while watched;
so the count of finished allocations does not wrap either. -/
theorem counters_conserved (x : Execution Initial (Step env)) (hway : OneWay x)
    (hreplace : ∀ i < x.length, (x.state i).ReplacementSucceeds env (x.event i))
    (hcount : x.occurrences Allocates x.length < 2 ^ 32) :
    ∀ i ≤ x.length, ∀ w info, (x.state i).table.info? w = some info →
      info.countLiveCloselyWatchedAllocations.toNat = UnorderedMap.count (PointsTo w)
        (x.state i).table.closelyWatchedAllocationsByAddress ∧
      (x.state i).table.countLiveCloselyWatchedAllocationsAllTraces.toNat =
        UnorderedMap.size (x.state i).table.closelyWatchedAllocationsByAddress ∧
      info.countTotalCloselyWatchedAllocationsEverCreated.toNat =
        info.countLiveCloselyWatchedAllocations.toNat +
          info.countLeakedCloselyWatchedAllocations.toNat + x.occurrences (FreesWatched w) i ∧
      info.countFinishedWatchedAllocations.toNat =
        info.countLeakedCloselyWatchedAllocations.toNat + x.occurrences (FreesWatched w) i := by
  intro i hi w info hinfo
  have h := books_at x hway hreplace hcount i hi
  have hentry : (x.state i).table.info w = info := by rw [AllocationTable.info, hinfo]; rfl
  have hlive := h.live w
  have hcreated := h.created w
  rw [hentry] at hlive hcreated
  refine ⟨hlive, h.global, hcreated, ?_⟩
  have hle : info.countLiveCloselyWatchedAllocations.toNat ≤
      info.countTotalCloselyWatchedAllocationsEverCreated.toNat := by omega
  rw [WatchedStackTraceInfo.countFinishedWatchedAllocations,
    UInt32.toNat_sub_of_le _ _ (UInt32.le_iff_toNat_le.mpr hle), hcreated]
  omega

/-- A light allocation outlives its time; of the two closely watched ones that
follow from the same stack, one is freed and one is leaked. -/
def leakEvents : List Event :=
  [.setWatchState .watching,
    .allocate (callerAt 0) ⟨8, 1, 7, .unnecessary⟩ 0x1000 8,
    .patrol 31 [0x1000] [],
    .allocate (callerAt 40) ⟨8, 1, 7, .unnecessary⟩ 0x2000 4096,
    .allocate (callerAt 41) ⟨8, 1, 7, .unnecessary⟩ 0x3000 4096,
    .free (callerAt 42) 0x3000 true 0 0,
    .patrol 71 [] [0x2000],
    .patrol 73 [] [0x2000]]

def leakRun : Execution Initial (Step .default) :=
  Execution.ofEvents leakEvents (.setWatchState .watching) initial_start (by decide +kernel)

theorem oneWay_leakRun : OneWay leakRun := by
  unfold OneWay
  decide +kernel

def leakEntry : TraceEntry := ⟨7, ⟨[1]⟩⟩

/-- Its counters at the end of the run. -/
def leakInfo : WatchedStackTraceInfo where
  stackTrace := ⟨[1]⟩
  countTotalCloselyWatchedAllocationsEverCreated := 2
  countLeakedCloselyWatchedAllocations := 1
  countTotalLeakedMemory := 8

theorem counters_conserved_leakRun :
    leakInfo.countLiveCloselyWatchedAllocations.toNat = UnorderedMap.count (PointsTo leakEntry)
        (leakRun.state 8).table.closelyWatchedAllocationsByAddress ∧
      (leakRun.state 8).table.countLiveCloselyWatchedAllocationsAllTraces.toNat =
        UnorderedMap.size (leakRun.state 8).table.closelyWatchedAllocationsByAddress ∧
      leakInfo.countTotalCloselyWatchedAllocationsEverCreated.toNat =
        leakInfo.countLiveCloselyWatchedAllocations.toNat +
          leakInfo.countLeakedCloselyWatchedAllocations.toNat +
          leakRun.occurrences (FreesWatched leakEntry) 8 ∧
      leakInfo.countFinishedWatchedAllocations.toNat =
        leakInfo.countLeakedCloselyWatchedAllocations.toNat +
          leakRun.occurrences (FreesWatched leakEntry) 8 :=
  counters_conserved leakRun oneWay_leakRun (by decide +kernel) (by decide +kernel) 8 le_rfl
    leakEntry leakInfo (by decide +kernel)

end System

end AllocCounter
