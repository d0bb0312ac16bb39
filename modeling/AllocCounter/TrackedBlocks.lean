import AllocCounter.InstrumentedRun

/-!
# Records and the blocks they are about

Every record at an address other than `NULL` is about a block that the
application holds there, and no address has two records. Blocks that have a
record must not be freed or reallocated while the library is not watching; when
the watch word only goes from not watching to watching, this is always so.
-/
namespace AllocCounter.System

open AllocationTable

variable {env : Environment} {s s' : System}

/-- What the records at an address say about the block held there. -/
structure Tracks (a : Address) (light : Option LightAllocation)
    (watched : Option CloselyWatchedAllocation) (held : Option Block) : Prop where
  light : light ≠ none → watched = none ∧ ∃ b, held = some b ∧ b.internal = false
  watched : ∀ alloc, watched = some alloc → alloc.memory = a ∧ ∃ b, held = some b ∧
    b.internal = false ∧ alloc.requestedSize.toNat = b.size % 2 ^ 32

structure Consistent (s : System) : Prop where
  owned : ∀ a, s.heap a = none → s.held a = none
  null : s.held 0 = none
  tracks : ∀ a, a ≠ 0 → Tracks a (s.table.lightAllocationsByAddress.lookup a)
    (s.table.closelyWatchedAllocationsByAddress.lookup a) (s.held a)

/-- No block with a record is given back or moved while not watching. -/
def Synced (s : System) : Event → Prop
  | .reallocate _ oldMemory _ _ _ => s.watchState = .notWatching → s.table.Untracked oldMemory
  | .free _ memory _ _ _ => s.watchState = .notWatching → s.table.Untracked memory
  | _ => True

instance (s : System) : (e : Event) → Decidable (s.Synced e)
  | .reallocate _ _ _ _ _ | .free _ _ _ _ _ => inferInstanceAs (Decidable (_ → _))
  | .setWatchState _ | .allocate _ _ _ _ | .patrol _ _ _ => inferInstanceAs (Decidable True)

theorem tracks_none (a : Address) (held : Option Block) : Tracks a none none held :=
  ⟨fun h => absurd rfl h, fun _ h => nomatch h⟩

/-- An address that nobody holds has no record. -/
theorem Consistent.untracked_of_held (h : s.Consistent) {a : Address} (ha : a ≠ 0)
    (hheld : s.held a = none) : s.table.Untracked a := by
  have htracks := h.tracks a ha
  rw [hheld] at htracks
  constructor
  · by_contra hlight
    have ⟨_, b, hb, _⟩ := htracks.light hlight
    exact nomatch hb
  · cases hwatched : s.table.closelyWatchedAllocationsByAddress.lookup a with
    | none => rfl
    | some alloc =>
        have ⟨_, b, hb, _⟩ := htracks.watched alloc hwatched
        exact nomatch hb

theorem Consistent.untracked_of_fresh (h : s.Consistent) {answer : Address} (ha : answer ≠ 0)
    (hfresh : s.Fresh answer) : s.table.Untracked answer :=
  h.untracked_of_held ha (h.owned _ (hfresh.resolve_left ha))

/-- A call that finds no record is about a block without one. -/
theorem Consistent.untracked_of_bypass (h : s.Consistent) {c : Caller} {memory : Address}
    (hwatch : c.watchState = s.watchState) (hholds : s.Holds c memory)
    (hsync : s.watchState = .notWatching → s.table.Untracked memory)
    (hbypass : Bypasses c ∨ s.table.Untracked memory) : s.table.Untracked memory := by
  obtain ⟨b, hb, hinternal⟩ := hholds
  have hnull : memory ≠ 0 := by
    intro hm
    rw [hm, h.null] at hb
    exact nomatch hb
  cases hbypass with
  | inr huntracked => exact huntracked
  | inl hbypass =>
      cases hbypass with
      | inr hnot => exact hsync (hwatch ▸ hnot)
      | inl hlib =>
          have htracks := h.tracks memory hnull
          rw [hb] at htracks
          constructor
          · by_contra hlight
            have ⟨_, b', hb', hext⟩ := htracks.light hlight
            rw [← Option.some.inj hb', hinternal, hlib] at hext
            exact nomatch hext
          · cases hwatched : s.table.closelyWatchedAllocationsByAddress.lookup memory with
            | none => rfl
            | some alloc =>
                have ⟨_, b', hb', hext, _⟩ := htracks.watched alloc hwatched
                rw [← Option.some.inj hb', hinternal, hlib] at hext
                exact nomatch hext

theorem consistent_initial (h : s.Initial) : s.Consistent where
  owned a ha := (h.live_iff a).mp ha
  null := h.null
  tracks a _ := by
    rw [h.table]
    exact tracks_none a _

theorem Consistent.allocate (h : s.Consistent) {c : Caller} {r : Request} {answer : Address}
    {capacity : ℕ} (hstep : s.Step env (.allocate c r answer capacity) s') : s'.Consistent := by
  obtain ⟨-, hfresh, effects, t', hcase, rfl⟩ := step_allocate hstep
  by_cases hnull : answer = 0
  · subst hnull
    cases hcase with
    | light t' hbypass hsame hnot => exact absurd rfl hnot
    | watched t' call hcall hwatches hnot => exact absurd rfl hnot
    | untracked t' call memory hsame hlight hmemory hcall =>
        simp only [Blocks.obtain_null]
        refine ⟨h.owned, h.null, fun a ha => ?_⟩
        simp only [hlight, hsame.watched]
        exact h.tracks a ha
  have hnone := h.untracked_of_fresh hnull hfresh
  refine ⟨fun a ha => ?_, ?_, fun a ha => ?_⟩
  · dsimp only at ha ⊢
    rw [Blocks.obtain_apply hnull] at ha ⊢
    split_ifs at ha with heq
    rw [if_neg heq]
    exact h.owned a ha
  · dsimp only
    rw [Blocks.obtain_of_ne _ _ (Ne.symm hnull)]
    exact h.null
  · have hold := h.tracks a ha
    cases hcase with
    | untracked t' call memory hsame hlight hmemory hcall =>
        simp only [hlight, hsame.watched]
        by_cases heq : a = answer
        · rw [heq, hnone.1, hnone.2]
          exact tracks_none _ _
        · rwa [Blocks.obtain_of_ne _ _ heq]
    | light t' hbypass hsame hnot hlight =>
        simp only [hlight, hsame.watched, UnorderedMap.lookup_insert_eq]
        have hext : c.inLibrary = false := by
          simpa using fun hlib => hbypass (.inl hlib)
        by_cases heq : a = answer
        · rw [heq, hnone.2, Blocks.obtain_self hnull, if_pos rfl]
          exact ⟨fun _ => ⟨rfl, _, rfl, hext⟩, fun _ hw => nomatch hw⟩
        · rwa [if_neg heq, Blocks.obtain_of_ne _ _ heq]
    | watched t' call hcall hwatches hnot hlight hadd =>
        simp only [hlight, hadd.watched, UnorderedMap.lookup_insert_eq]
        have hext : c.inLibrary = false := by
          simpa using fun hlib => hwatches.1 (.inl hlib)
        by_cases heq : a = answer
        · rw [heq, hnone.1, Blocks.obtain_self hnull, if_pos rfl]
          refine ⟨fun hl => absurd rfl hl, fun alloc halloc => ?_⟩
          rw [← Option.some.inj halloc]
          exact ⟨rfl, _, rfl, hext, UInt64.toNat_toUInt32 _⟩
        · rwa [if_neg heq, Blocks.obtain_of_ne _ _ heq]

theorem Consistent.ne_null (h : s.Consistent) {memory : Address} {b : Block}
    (hb : s.held memory = some b) : memory ≠ 0 := by
  intro hm
  rw [hm, h.null] at hb
  exact nomatch hb

/-- Where a block may move: nowhere, or to an address without a record. -/
theorem Consistent.moves (h : s.Consistent) {oldMemory answer : Address} {P : Prop}
    (hanswer : s.Fresh answer ∨ answer = oldMemory ∧ P) (ha : answer ≠ 0) :
    answer = oldMemory ∨ s.table.Untracked answer :=
  hanswer.elim (fun hfresh => .inr (h.untracked_of_fresh ha hfresh)) fun hsame => .inl hsame.1

theorem not_inLibrary {c : Caller} (h : ¬ Bypasses c) : c.inLibrary = false :=
  Bool.eq_false_iff.mpr fun hlib => h (.inl hlib)

/-- The held blocks stay live when a block is reallocated. -/
theorem Consistent.owned_reallocate (h : s.Consistent) {c : Caller} {oldMemory answer : Address}
    {newRequestedSize : UInt64} {capacity : ℕ} {b : Block} {o : Outcome}
    (hb : s.held oldMemory = some b)
    (hcase : ReallocateCase env s.table c oldMemory newRequestedSize (fun _ => answer) (some o))
    (a : Address)
    (hheap : o.effects.foldl (Effect.onHeap (reallocated oldMemory capacity)) s.heap a = none) :
    (if o.memory = 0 then s.held
      else Blocks.obtain o.memory { b with size := newRequestedSize.toNat }
        (Blocks.release oldMemory s.held)) a = none := by
  cases hcase with
  | untracked | light =>
      simp only [List.foldl_cons, List.foldl_nil, Effect.onHeap, reallocated] at hheap
      split_ifs at hheap ⊢ with hnull
      · exact h.owned a hheap
      · rw [Blocks.move_apply hnull] at hheap ⊢
        split_ifs at hheap ⊢ with hnew hold
        · rfl
        · exact h.owned a hheap
  | replaced t' call alloc hcall hfinds hpages hsame hlight =>
      subst hcall
      simp only [List.foldl_cons, List.foldl_nil, Effect.onHeap, replacingCall, reallocated]
        at hheap
      dsimp only
      split_ifs with hnull
      · rw [hnull, Blocks.obtain_null] at hheap
        exact h.owned a hheap
      · rw [Blocks.obtain_apply hnull] at hheap
        rw [Blocks.move_apply hnull]
        split_ifs at hheap ⊢ with hnew hold
        · rfl
        · exact h.owned a hheap
  | kept t' alloc hfinds hpages hsame hlight =>
      have hnone := h.owned a hheap
      rw [if_neg (h.ne_null hb), Blocks.move_apply (h.ne_null hb)]
      split_ifs with hold
      · rw [hold, hb] at hnone
        cases hnone
      · exact hnone

/-- A block that is moved takes its record along, and the other addresses keep theirs. -/
theorem Consistent.tracks_moved (h : s.Consistent) {oldMemory answer a : Address} {b : Block}
    {light : Option LightAllocation} {watched : Option CloselyWatchedAllocation} (ha : a ≠ 0)
    (hnew : a = answer → Tracks a light watched (some b))
    (hgone : a ≠ answer → a = oldMemory → light = none ∧ watched = none)
    (hkept : a ≠ answer → a ≠ oldMemory → light = s.table.lightAllocationsByAddress.lookup a ∧
      watched = s.table.closelyWatchedAllocationsByAddress.lookup a) :
    Tracks a light watched ((if answer = 0 then s.held
      else Blocks.obtain answer b (Blocks.release oldMemory s.held)) a) := by
  by_cases hanswer : a = answer
  · rw [if_neg (hanswer ▸ ha), Blocks.move_apply (hanswer ▸ ha), if_pos hanswer]
    exact hnew hanswer
  by_cases hmoved : a = oldMemory
  · obtain ⟨hlight, hwatched⟩ := hgone hanswer hmoved
    rw [hlight, hwatched]
    exact tracks_none _ _
  · obtain ⟨hlight, hwatched⟩ := hkept hanswer hmoved
    rw [hlight, hwatched]
    split_ifs with hnull
    · exact h.tracks a ha
    · rw [Blocks.move_apply hnull, if_neg hanswer, if_neg hmoved]
      exact h.tracks a ha

theorem Consistent.reallocate (h : s.Consistent) {c : Caller} {oldMemory answer : Address}
    {newRequestedSize : UInt64} {capacity : ℕ}
    (hsync : s.Synced (.reallocate c oldMemory newRequestedSize answer capacity))
    (hstep : s.Step env (.reallocate c oldMemory newRequestedSize answer capacity) s') :
    s'.Consistent := by
  obtain ⟨hwatch, hanswer, b, o, hb, hinternal, hcase, rfl⟩ := step_reallocate hstep
  have hold := h.ne_null hb
  have hmoves := h.moves hanswer
  have htracksOld := h.tracks oldMemory hold
  refine ⟨fun a => h.owned_reallocate hb hcase a, ?_, fun a ha => ?_⟩
  · dsimp only
    split_ifs with hnull
    · exact h.null
    · rw [Blocks.move_apply hnull, if_neg (Ne.symm hnull), if_neg (Ne.symm hold)]
      exact h.null
  cases hcase with
  | untracked t' hsame hlight hrecord =>
      have hnone := h.untracked_of_bypass hwatch ⟨b, hb, hinternal⟩ hsync hrecord
      simp only [hlight, hsame.watched]
      refine h.tracks_moved ha (fun hanswer => ?_) (fun _ hmoved => hmoved ▸ hnone)
        fun _ _ => ⟨rfl, rfl⟩
      have huntracked : s.table.Untracked a := by
        cases hmoves (hanswer ▸ ha) with
        | inl hkept => exact hanswer.trans hkept ▸ hnone
        | inr hfresh => exact hanswer ▸ hfresh
      rw [huntracked.1, huntracked.2]
      exact tracks_none _ _
  | light t' alloc hbypass hrecord hsame hlight =>
      have hext := hinternal.trans (not_inLibrary hbypass)
      have hnotWatched : s.table.closelyWatchedAllocationsByAddress.lookup oldMemory = none :=
        (htracksOld.light (by simp [hrecord])).1
      simp only [hlight, hsame.watched]
      by_cases hkept : answer = oldMemory
      · rw [if_neg (not_not.mpr hkept), UnorderedMap.lookup_insert_eq]
        refine h.tracks_moved ha (fun hanswer => ?_)
          (fun hanswer hmoved => absurd (hmoved.trans hkept.symm) hanswer)
          fun _ hmoved => ⟨if_neg hmoved, rfl⟩
        rw [hanswer, hkept, if_pos rfl, hnotWatched]
        exact ⟨fun _ => ⟨rfl, _, rfl, hext⟩, fun _ hw => nomatch hw⟩
      · rw [if_pos hkept, lookup_rekey]
        refine h.tracks_moved ha (fun hanswer => ?_)
          (fun _ hmoved => ⟨if_pos hmoved, hmoved ▸ hnotWatched⟩)
          fun hanswer hmoved => ⟨by rw [if_neg hmoved, if_neg hanswer], rfl⟩
        have hfresh := (hmoves (hanswer ▸ ha)).resolve_left hkept
        rw [hanswer, if_neg hkept, if_pos rfl, hfresh.2]
        exact ⟨fun _ => ⟨rfl, _, rfl, hext⟩, fun _ hw => nomatch hw⟩
  | replaced t' call alloc hcall hfinds hpages hsame hlight =>
      have hext := hinternal.trans (not_inLibrary hfinds.1)
      have hkept : answer ≠ oldMemory ∨ answer = 0 := by
        cases hanswer with
        | inr hsame => exact absurd ⟨alloc, hfinds, hpages⟩ hsame.2
        | inl hfresh =>
            by_contra hboth
            have ⟨heq, hnull⟩ := not_or.mp hboth
            have hlive := h.owned _ (hfresh.resolve_left hnull)
            rw [not_not.mp heq, hb] at hlive
            exact nomatch hlive
      simp only [hlight, hsame.watched, lookup_rekey]
      refine h.tracks_moved ha (fun hanswer => ?_)
        (fun _ hmoved => ⟨hmoved ▸ hfinds.2.1, if_pos hmoved⟩)
        fun hanswer hmoved => ⟨rfl, by rw [if_neg hmoved, if_neg hanswer]⟩
      have hne := hkept.resolve_right (hanswer ▸ ha)
      have hfresh := (hmoves (hanswer ▸ ha)).resolve_left hne
      rw [hanswer, if_neg hne, if_pos rfl, hfresh.1, hfresh.2]
      refine ⟨fun hl => absurd rfl hl, fun alloc' halloc => ?_⟩
      rw [← Option.some.inj halloc]
      exact ⟨rfl, _, rfl, hext, UInt64.toNat_toUInt32 _⟩
  | kept t' alloc hfinds hpages hsame hlight =>
      have hext := hinternal.trans (not_inLibrary hfinds.1)
      simp only [hlight, hsame.watched, UnorderedMap.lookup_insert_eq]
      refine h.tracks_moved ha (fun hanswer => ?_) (fun hanswer hmoved => absurd hmoved hanswer)
        fun hanswer _ => ⟨rfl, if_neg hanswer⟩
      rw [hanswer, if_pos rfl, hfinds.2.1]
      refine ⟨fun hl => absurd rfl hl, fun alloc' halloc => ?_⟩
      rw [← Option.some.inj halloc]
      exact ⟨(htracksOld.watched alloc hfinds.2.2).1, _, rfl, hext, UInt64.toNat_toUInt32 _⟩

/-- A call that frees a block leaves no record of it. -/
theorem Consistent.untracked_of_freed (h : s.Consistent) {c : Caller} {memory : Address}
    {real : RealCall → Address} {t' : AllocationTable} {effects : List Effect}
    (hmemory : memory ≠ 0) (hwatch : c.watchState = s.watchState) (hholds : s.Holds c memory)
    (hsync : s.watchState = .notWatching → s.table.Untracked memory)
    (hcase : FreeCase s.table c memory real (t', effects)) : t'.Untracked memory := by
  cases hcase with
  | null hnull => exact absurd hnull hmemory
  | untracked t' hnot hsame hlight hrecord =>
      have hold := h.untracked_of_bypass hwatch hholds hsync hrecord
      exact ⟨hlight ▸ hold.1, hsame.watched ▸ hold.2⟩
  | light t' hnot hsame hbypass hrecord hlight =>
      have ⟨r, hr⟩ := Finmap.mem_iff.mp hrecord
      have hold := (h.tracks memory hmemory).light (by simp [hr])
      exact ⟨hlight ▸ Finmap.lookup_erase _ _, hsame.watched ▸ hold.1⟩
  | watched t' alloc hnot hfinds hlight hwatched =>
      exact ⟨hlight ▸ hfinds.2.1, hwatched ▸ Finmap.lookup_erase _ _⟩

theorem Consistent.free (h : s.Consistent) {c : Caller} {memory answer : Address} {released : Bool}
    {capacity : ℕ} (hsync : s.Synced (.free c memory released answer capacity))
    (hstep : s.Step env (.free c memory released answer capacity) s') : s'.Consistent := by
  obtain ⟨hwatch, hholds, hanswer, effects, t', hcase, rfl⟩ := step_free hstep
  by_cases hmemory : memory = 0
  · cases hcase with
    | null =>
        simp only [if_pos hmemory]
        exact ⟨h.owned, h.null, h.tracks⟩
    | untracked t' hnot | light t' hnot | watched t' alloc hnot => exact absurd hmemory hnot
  replace hholds := hholds.resolve_left hmemory
  have hfresh : answer ≠ 0 → answer = memory ∨ s.table.Untracked answer := fun hnull =>
    hanswer.elim (fun hf => .inr (h.untracked_of_fresh hnull hf)) .inl
  simp only [if_neg hmemory]
  refine ⟨fun a ha => ?_, ?_, fun a ha => ?_⟩
  · dsimp only [Blocks.giveBack] at ha ⊢
    split_ifs at ha ⊢
    · by_cases hnull : answer = 0
      · rw [hnull, Blocks.obtain_null, Blocks.release_apply] at ha ⊢
        split_ifs at ha ⊢ with hreleased
        · rfl
        · exact h.owned a ha
      · rw [Blocks.move_apply hnull] at ha ⊢
        split_ifs at ha ⊢ with hnew hreleased
        · rfl
        · exact h.owned a ha
    · exact h.owned a ha
  · dsimp only [Blocks.giveBack]
    split_ifs
    · by_cases hnull : answer = 0
      · rw [hnull, Blocks.obtain_null, Blocks.release_of_ne _ (Ne.symm hmemory)]
        exact h.null
      · rw [Blocks.move_apply hnull, if_neg (Ne.symm hnull), if_neg (Ne.symm hmemory)]
        exact h.null
    · exact h.null
  -- the freed address loses its record, a new one has none, the others keep theirs
  have hkeep : a ≠ memory → ∀ light watched,
      light = s.table.lightAllocationsByAddress.lookup a →
      watched = s.table.closelyWatchedAllocationsByAddress.lookup a →
      Tracks a light watched
        (Blocks.giveBack memory released answer ⟨s.nextBlock, 0, c.inLibrary⟩ s.held a) := by
    intro hne light watched hlight hwatched
    rw [hlight, hwatched]
    by_cases hnew : a = answer
    · have hnone := (hfresh (hnew ▸ ha)).resolve_left (hnew ▸ hne)
      rw [hnew, hnone.1, hnone.2]
      exact tracks_none _ _
    · rw [Blocks.giveBack_of_ne _ _ _ hne hnew]
      exact h.tracks a ha
  by_cases hne : a = memory
  · have hnone := h.untracked_of_freed hmemory hwatch hholds hsync hcase
    rw [hne, hnone.1, hnone.2]
    exact tracks_none _ _
  · cases hcase with
    | null hnull => exact absurd hnull hmemory
    | untracked t' hnot hsame hlight hrecord =>
        exact hkeep hne _ _ (congrArg _ hlight) (congrArg _ hsame.watched)
    | light t' hnot hsame hbypass hrecord hlight =>
        refine hkeep hne _ _ ?_ (congrArg _ hsame.watched)
        rw [hlight, Finmap.lookup_erase_ne hne]
    | watched t' alloc hnot hfinds hlight hwatched hremoves =>
        refine hkeep hne _ _ (congrArg _ hlight) ?_
        rw [hwatched, Finmap.lookup_erase_ne hne]

/-- A pass keeps address and size of the records it keeps. -/
theorem watchedAfter_some {now : UInt32} {alloc : Option CloselyWatchedAllocation}
    {r' : CloselyWatchedAllocation} (h : watchedAfter env now alloc = some r') :
    ∃ r, alloc = some r ∧ r'.memory = r.memory ∧ r'.requestedSize = r.requestedSize ∧
      r'.watchedStackTraceInfo = r.watchedStackTraceInfo := by
  cases alloc with
  | none => cases h
  | some r =>
      simp only [watchedAfter, Option.bind_some] at h
      split_ifs at h
      · cases hstate : r.state with
        | notYetSuspicious =>
            rw [hstate] at h
            rw [← Option.some.inj h]
            exact ⟨r, rfl, rfl, rfl, rfl⟩
        | suspicious =>
            rw [hstate] at h
            cases h
      · rw [← Option.some.inj h]
        exact ⟨r, rfl, rfl, rfl, rfl⟩

theorem Consistent.patrol (h : s.Consistent) {time : UInt64}
    {lightOrder watchedOrder : List Address}
    (hstep : s.Step env (.patrol time lightOrder watchedOrder) s') : s'.Consistent := by
  obtain ⟨hlight, hwatched, rfl⟩ := step_patrol hstep
  have ⟨_, hafter⟩ := patrol_spec env s.table time hlight hwatched
  refine ⟨h.owned, h.null, fun a ha => ?_⟩
  dsimp only
  rw [(hafter a).1, (hafter a).2]
  have htracks := h.tracks a ha
  constructor
  · intro hl
    have hold : s.table.lightAllocationsByAddress.lookup a ≠ none := by
      intro hnone
      rw [hnone] at hl
      exact hl rfl
    have ⟨hnone, hheld⟩ := htracks.light hold
    exact ⟨by rw [hnone]; rfl, hheld⟩
  · intro r' hr'
    have ⟨r, hr, hmemory, hsize, _⟩ := watchedAfter_some hr'
    rw [hmemory, hsize]
    exact htracks.watched r hr

theorem Consistent.step (h : s.Consistent) {e : Event} (hsync : s.Synced e)
    (hstep : s.Step env e s') : s'.Consistent := by
  cases e with
  | setWatchState w =>
      have hs' := (Option.some.inj hstep.2).symm
      subst hs'
      exact ⟨h.owned, h.null, h.tracks⟩
  | allocate => exact h.allocate hstep
  | reallocate => exact h.reallocate hsync hstep
  | free => exact h.free hsync hstep
  | patrol => exact h.patrol hstep

/-- The invariant over executions whose steps are all synced. -/
theorem consistent_at (x : Execution Initial (Step env))
    (hsync : ∀ i < x.length, (x.state i).Synced (x.event i)) :
    ∀ i ≤ x.length, (x.state i).Consistent :=
  x.invariant (fun _ => consistent_initial) (fun _ _ _ h hs hstep => h.step hs hstep) hsync

theorem ne_of_lookup {m : UnorderedMap Address CloselyWatchedAllocation} {a a' : Address}
    {alloc : CloselyWatchedAllocation} (h : m.lookup a = some alloc) (h' : m.lookup a' = none) :
    a ≠ a' := by
  intro heq
  rw [heq, h'] at h
  exact nomatch h

/-- Where a closely watched record after a step comes from, and what became of
its block: it is new, as it was, about the block that is reallocated, or put into
the suspicious state. -/
inductive RecordStep (env : Environment) (s : System) (e : Event) (s' : System) (a : Address)
    (alloc' : CloselyWatchedAllocation) : Prop
  | born (c : Caller) (r : Request) (capacity : ℕ) :
      e = .allocate c r a capacity → Watches env s.table c r.fingerprint →
      alloc' =
        { memory := a
          requestedSize := r.size.toUInt32
          allocationTime := c.time.toUInt32
          deadline := c.time.toUInt32 + env.timeForAllocationToBecomeSuspicious
          state := .notYetSuspicious
          watchedStackTraceInfo := ⟨r.fingerprint, c.stackTrace⟩ } →
      s'.held a = some ⟨s.nextBlock, r.size.toNat, false⟩ → s'.heap a = some capacity →
      RecordStep env s e s' a alloc'
  | stays : s.table.closelyWatchedAllocationsByAddress.lookup a = some alloc' →
      s'.held a = s.held a → s'.heap a = s.heap a → RecordStep env s e s' a alloc'
  | replaced (c : Caller) (oldMemory : Address) (newRequestedSize : UInt64) (capacity : ℕ)
      (alloc : CloselyWatchedAllocation) (b : Block) :
      e = .reallocate c oldMemory newRequestedSize a capacity →
      s.table.FindsWatched c oldMemory alloc → Repaginates env alloc newRequestedSize →
      alloc' = { alloc with requestedSize := newRequestedSize.toUInt32, memory := a } →
      s.held oldMemory = some b →
      s'.held a = some { b with size := newRequestedSize.toNat } → s'.heap a = some capacity →
      RecordStep env s e s' a alloc'
  | kept (c : Caller) (newRequestedSize : UInt64) (answer : Address) (capacity : ℕ)
      (alloc : CloselyWatchedAllocation) (b : Block) :
      e = .reallocate c a newRequestedSize answer capacity →
      s.table.FindsWatched c a alloc → ¬ Repaginates env alloc newRequestedSize →
      alloc' = { alloc with requestedSize := newRequestedSize.toUInt32 } →
      s.held a = some b →
      s'.held a = some { b with size := newRequestedSize.toNat } → s'.heap a = s.heap a →
      RecordStep env s e s' a alloc'
  | suspected (time : UInt64) (lightOrder watchedOrder : List Address)
      (alloc : CloselyWatchedAllocation) :
      e = .patrol time lightOrder watchedOrder →
      s.table.closelyWatchedAllocationsByAddress.lookup a = some alloc →
      alloc.state = .notYetSuspicious → alloc.deadline < time.toUInt32 →
      alloc' =
        { alloc with
          state := .suspicious
          deadline := time.toUInt32 + env.closelyWatchedAllocationsAccessMaxInterval } →
      s'.held a = s.held a → s'.heap a = s.heap a → RecordStep env s e s' a alloc'

theorem recordStep_allocate (hc : s.Consistent) {c : Caller} {r : Request} {answer : Address}
    {capacity : ℕ} (hstep : s.Step env (.allocate c r answer capacity) s') {a : Address}
    (ha : a ≠ 0) {alloc' : CloselyWatchedAllocation}
    (h : s'.table.closelyWatchedAllocationsByAddress.lookup a = some alloc') :
    RecordStep env s (.allocate c r answer capacity) s' a alloc' := by
  obtain ⟨-, hfresh, effects, t', hcase, rfl⟩ := step_allocate hstep
  have hnew : ∀ alloc, s.table.closelyWatchedAllocationsByAddress.lookup a = some alloc →
      a ≠ answer := fun alloc halloc heq =>
    ne_of_lookup halloc (hc.untracked_of_fresh (heq ▸ ha) hfresh).2 heq
  cases hcase with
  | untracked t' call memory hsame =>
      have hold := (congrArg _ hsame.watched).symm.trans h
      have hne := hnew alloc' hold
      exact .stays hold (Blocks.obtain_of_ne _ _ hne) (Blocks.obtain_of_ne _ _ hne)
  | light t' hbypass hsame =>
      have hold := (congrArg _ hsame.watched).symm.trans h
      have hne := hnew alloc' hold
      exact .stays hold (Blocks.obtain_of_ne _ _ hne) (Blocks.obtain_of_ne _ _ hne)
  | watched t' call hcall hwatches hnull hlight hadd =>
      dsimp only at h
      rw [hadd.watched, UnorderedMap.lookup_insert_eq] at h
      split_ifs at h with heq
      · subst heq
        refine .born c r capacity rfl hwatches (Option.some.inj h).symm ?_
          (Blocks.obtain_self ha _ _)
        dsimp only
        rw [Blocks.obtain_self ha, not_inLibrary hwatches.1]
      · exact .stays h (Blocks.obtain_of_ne _ _ heq) (Blocks.obtain_of_ne _ _ heq)

/-- A reallocation touches the addresses it is given and returns. -/
theorem reallocated_elsewhere {oldMemory answer a : Address} {capacity : ℕ} (hne : a ≠ oldMemory)
    (hnew : a ≠ answer) (call : RealCall) (h : Blocks ℕ) :
    reallocated oldMemory capacity call answer h a = h a := by
  cases call with
  | memalign alignment size => exact Blocks.obtain_of_ne _ _ hnew
  | preferred =>
      simp only [reallocated]
      split_ifs with hnull
      · rfl
      · rw [Blocks.move_apply hnull, if_neg hnew, if_neg hne]

theorem moved_elsewhere {oldMemory new a : Address} (hne : a ≠ oldMemory) (hnew : a ≠ new)
    (b : Block) (held : Blocks Block) :
    (if new = 0 then held else Blocks.obtain new b (Blocks.release oldMemory held)) a = held a := by
  split_ifs with hnull
  · rfl
  · rw [Blocks.move_apply hnull, if_neg hnew, if_neg hne]

theorem recordStep_reallocate (hc : s.Consistent) {c : Caller} {oldMemory answer : Address}
    {newRequestedSize : UInt64} {capacity : ℕ}
    (hsync : s.Synced (.reallocate c oldMemory newRequestedSize answer capacity))
    (hstep : s.Step env (.reallocate c oldMemory newRequestedSize answer capacity) s')
    {a : Address} (ha : a ≠ 0) {alloc' : CloselyWatchedAllocation}
    (h : s'.table.closelyWatchedAllocationsByAddress.lookup a = some alloc') :
    RecordStep env s (.reallocate c oldMemory newRequestedSize answer capacity) s' a alloc' := by
  obtain ⟨hwatch, hanswer, b, o, hb, hinternal, hcase, rfl⟩ := step_reallocate hstep
  have hold := hc.ne_null hb
  -- an address that gets the block had no closely watched record, unless it kept the block
  have hnew : ∀ alloc, s.table.closelyWatchedAllocationsByAddress.lookup a = some alloc →
      a ≠ oldMemory → a ≠ answer := by
    intro alloc halloc hne heq
    cases hc.moves hanswer (heq ▸ ha) with
    | inl hkept => exact hne (heq.trans hkept)
    | inr hfresh => exact ne_of_lookup halloc hfresh.2 heq
  cases hcase with
  | untracked t' hsame hlight hrecord =>
      have hrec := (congrArg _ hsame.watched).symm.trans h
      have hne := ne_of_lookup hrec
        (hc.untracked_of_bypass hwatch ⟨b, hb, hinternal⟩ hsync hrecord).2
      have hne' := hnew alloc' hrec hne
      exact .stays hrec (moved_elsewhere hne hne' _ _)
        (reallocated_elsewhere hne hne' .preferred s.heap)
  | light t' alloc hbypass hrecord hsame =>
      have hrec := (congrArg _ hsame.watched).symm.trans h
      have hne := ne_of_lookup hrec ((hc.tracks oldMemory hold).light (by simp [hrecord])).1
      have hne' := hnew alloc' hrec hne
      exact .stays hrec (moved_elsewhere hne hne' _ _)
        (reallocated_elsewhere hne hne' .preferred s.heap)
  | replaced t' call alloc hcall hfinds hpages hsame =>
      have hrec := (congrArg _ hsame.watched).symm.trans h
      dsimp only at hrec
      rw [lookup_rekey] at hrec
      split_ifs at hrec with hne heq
      · subst heq
        have hfresh := hc.untracked_of_fresh ha
          (hanswer.resolve_right fun hkept => hkept.2 ⟨alloc, hfinds, hpages⟩)
        rw [hfresh.2] at hrec
        refine .replaced c oldMemory newRequestedSize capacity alloc b rfl hfinds hpages
          (Option.some.inj hrec).symm hb ?_ ?_
        · dsimp only
          rw [if_neg ha, Blocks.obtain_self ha]
        · subst hcall
          exact Blocks.obtain_self ha _ _
      · exact .stays hrec (moved_elsewhere hne heq _ _) (reallocated_elsewhere hne heq _ _)
  | kept t' alloc hfinds hpages hsame =>
      have hrec := (congrArg _ hsame.watched).symm.trans h
      dsimp only at hrec
      rw [UnorderedMap.lookup_insert_eq] at hrec
      split_ifs at hrec with heq
      · subst heq
        refine .kept c newRequestedSize answer capacity alloc b rfl hfinds hpages
          (Option.some.inj hrec).symm hb ?_ rfl
        dsimp only
        rw [if_neg ha, Blocks.obtain_self ha]
      · exact .stays hrec (moved_elsewhere heq heq _ _) rfl

theorem freed_elsewhere {α : Type} {memory answer a : Address} (released : Bool)
    (hne : a ≠ memory) (hnew : a ≠ answer) (b : α) (h : Blocks α) :
    (if memory = 0 then h else Blocks.giveBack memory released answer b h) a = h a := by
  split_ifs
  · rfl
  · exact Blocks.giveBack_of_ne _ _ _ hne hnew

theorem recordStep_free (hc : s.Consistent) {c : Caller} {memory answer : Address} {released : Bool}
    {capacity : ℕ} (hsync : s.Synced (.free c memory released answer capacity))
    (hstep : s.Step env (.free c memory released answer capacity) s') {a : Address} (ha : a ≠ 0)
    {alloc' : CloselyWatchedAllocation}
    (h : s'.table.closelyWatchedAllocationsByAddress.lookup a = some alloc') :
    RecordStep env s (.free c memory released answer capacity) s' a alloc' := by
  obtain ⟨hwatch, hholds, hanswer, effects, t', hcase, rfl⟩ := step_free hstep
  have hnew : s.table.closelyWatchedAllocationsByAddress.lookup a = some alloc' →
      a ≠ memory → a ≠ answer := by
    intro halloc hne heq
    cases hanswer with
    | inl hfresh => exact ne_of_lookup halloc (hc.untracked_of_fresh (heq ▸ ha) hfresh).2 heq
    | inr hsame => exact hne (heq.trans hsame)
  cases hcase with
  | null hmemory => exact .stays h (congrFun (if_pos hmemory) a) (congrFun (if_pos hmemory) a)
  | untracked t' hmemory hsame hlight hrecord =>
      have hrec := (congrArg _ hsame.watched).symm.trans h
      have hne := ne_of_lookup hrec (hc.untracked_of_bypass hwatch
        (hholds.resolve_left hmemory) hsync hrecord).2
      have hne' := hnew hrec hne
      exact .stays hrec (freed_elsewhere released hne hne' _ _)
        (freed_elsewhere released hne hne' _ _)
  | light t' hmemory hsame hbypass hrecord =>
      have hrec := (congrArg _ hsame.watched).symm.trans h
      have ⟨r, hr⟩ := Finmap.mem_iff.mp hrecord
      have hne := ne_of_lookup hrec ((hc.tracks memory hmemory).light (by simp [hr])).1
      have hne' := hnew hrec hne
      exact .stays hrec (freed_elsewhere released hne hne' _ _)
        (freed_elsewhere released hne hne' _ _)
  | watched t' alloc hmemory hfinds hlight hwatched =>
      have hrec := (congrArg _ hwatched).symm.trans h
      rw [UnorderedMap.lookup_erase_eq] at hrec
      split_ifs at hrec with hne
      have hne' := hnew hrec hne
      exact .stays hrec (freed_elsewhere released hne hne' _ _)
        (freed_elsewhere released hne hne' _ _)

theorem recordStep_patrol {time : UInt64} {lightOrder watchedOrder : List Address}
    (hstep : s.Step env (.patrol time lightOrder watchedOrder) s') {a : Address}
    {alloc' : CloselyWatchedAllocation}
    (h : s'.table.closelyWatchedAllocationsByAddress.lookup a = some alloc') :
    RecordStep env s (.patrol time lightOrder watchedOrder) s' a alloc' := by
  obtain ⟨hlight, hwatched, rfl⟩ := step_patrol hstep
  have hrec := ((patrol_spec env s.table time hlight hwatched).2 a).2.symm.trans h
  cases halloc : s.table.closelyWatchedAllocationsByAddress.lookup a with
  | none =>
      rw [halloc] at hrec
      cases hrec
  | some alloc =>
      rw [halloc] at hrec
      simp only [watchedAfter, Option.bind_some] at hrec
      split_ifs at hrec with hexpired
      · cases hstate : alloc.state with
        | suspicious =>
            rw [hstate] at hrec
            cases hrec
        | notYetSuspicious =>
            rw [hstate] at hrec
            exact .suspected time lightOrder watchedOrder alloc rfl halloc hstate hexpired
              (Option.some.inj hrec).symm rfl rfl
      · exact .stays (Option.some.inj hrec ▸ halloc) rfl rfl

theorem recordStep (hc : s.Consistent) {e : Event} (hsync : s.Synced e)
    (hstep : s.Step env e s') {a : Address} (ha : a ≠ 0) {alloc' : CloselyWatchedAllocation}
    (h : s'.table.closelyWatchedAllocationsByAddress.lookup a = some alloc') :
    RecordStep env s e s' a alloc' := by
  cases e with
  | setWatchState w =>
      have hs' := (Option.some.inj hstep.2).symm
      subst hs'
      exact .stays h rfl rfl
  | allocate => exact recordStep_allocate hc hstep ha h
  | reallocate => exact recordStep_reallocate hc hsync hstep ha h
  | free => exact recordStep_free hc hsync hstep ha h
  | patrol => exact recordStep_patrol hstep h

/-- There are no records before watching starts. -/
def Dormant (s : System) : Prop := s.watchState = .notWatching → ∀ a, s.table.Untracked a

/-- The watch word goes from not watching to watching only. -/
def OneWay (x : Execution Initial (Step env)) : Prop :=
  ∀ i < x.length, x.event i ≠ .setWatchState .notWatching

theorem Dormant.step (h : s.Dormant) {e : Event} (he : e ≠ .setWatchState .notWatching)
    (hstep : s.Step env e s') : s'.Dormant := by
  cases e with
  | setWatchState w =>
      intro hnot
      have hs' := (Option.some.inj hstep.2).symm
      subst hs'
      exact absurd (congrArg Event.setWatchState hnot) he
  | allocate c r answer capacity =>
      obtain ⟨hwatch, -, effects, t', hcase, rfl⟩ := step_allocate hstep
      intro hnot a
      have hbypass : Bypasses c := .inr (hwatch.trans hnot)
      have hnone := h hnot a
      cases hcase with
      | untracked t' call memory hsame hlight => exact ⟨hlight ▸ hnone.1, hsame.watched ▸ hnone.2⟩
      | light t' hwatching => exact absurd hbypass hwatching
      | watched t' call hcall hwatches => exact absurd hbypass hwatches.1
  | reallocate c oldMemory newRequestedSize answer capacity =>
      obtain ⟨hwatch, -, b, o, -, -, hcase, rfl⟩ := step_reallocate hstep
      intro hnot a
      have hbypass : Bypasses c := .inr (hwatch.trans hnot)
      have hnone := h hnot a
      cases hcase with
      | untracked t' hsame hlight => exact ⟨hlight ▸ hnone.1, hsame.watched ▸ hnone.2⟩
      | light t' alloc hwatching => exact absurd hbypass hwatching
      | replaced t' call alloc hcall hfinds => exact absurd hbypass hfinds.1
      | kept t' alloc hfinds => exact absurd hbypass hfinds.1
  | free c memory released answer capacity =>
      obtain ⟨hwatch, -, -, effects, t', hcase, rfl⟩ := step_free hstep
      intro hnot a
      have hbypass : Bypasses c := .inr (hwatch.trans hnot)
      have hnone := h hnot a
      cases hcase with
      | null => exact hnone
      | untracked t' hm hsame hlight => exact ⟨hlight ▸ hnone.1, hsame.watched ▸ hnone.2⟩
      | light t' hm hsame hwatching => exact absurd hbypass hwatching
      | watched t' alloc hm hfinds => exact absurd hbypass hfinds.1
  | patrol time lightOrder watchedOrder =>
      obtain ⟨hlight, hwatched, rfl⟩ := step_patrol hstep
      intro hnot a
      have ⟨_, hafter⟩ := patrol_spec env s.table time hlight hwatched
      have hnone := h hnot a
      exact ⟨(hafter a).1.trans (by rw [hnone.1]; rfl), (hafter a).2.trans (by rw [hnone.2]; rfl)⟩

theorem dormant_at {x : Execution Initial (Step env)} (hx : OneWay x) :
    ∀ i ≤ x.length, (x.state i).Dormant :=
  x.invariant (fun s hs _ a => by rw [hs.table]; exact ⟨rfl, rfl⟩)
    (fun _ _ _ h he hstep => h.step he hstep) hx

theorem OneWay.synced {x : Execution Initial (Step env)} (hx : OneWay x) :
    ∀ i < x.length, (x.state i).Synced (x.event i) := by
  intro i hi
  have hdormant := dormant_at hx i hi.le
  cases x.event i with
  | reallocate => exact fun hnot => hdormant hnot _
  | free => exact fun hnot => hdormant hnot _
  | setWatchState | allocate | patrol => exact trivial

end AllocCounter.System
