import AllocCounter.Overstayers
import AllocCounter.WatchLimits

/-!
# Changes of the watch state

The watch word may change at any time. While it says not to watch, calls go past
the table and its records stay, so a run has no stale record exactly when no
block that has a record is freed or moved then. A block that is reallocated in
place keeps its record, with the size of before: the invariant of the watched
runs holds for sizes that are forgotten.
-/
namespace AllocCounter.System

open AllocationTable

variable {env : Environment} {s s' : System}

/-- The same addresses are held, by the same side. -/
def SameHolders (held held' : Blocks Block) : Prop :=
  ∀ a, (held' a).map Block.internal = (held a).map Block.internal

namespace SameHolders

variable {held held' : Blocks Block}

theorem obtain (h : SameHolders held held') (memory : Address) {b b' : Block}
    (hb : b'.internal = b.internal) :
    SameHolders (Blocks.obtain memory b held) (Blocks.obtain memory b' held') := by
  by_cases hnull : memory = 0
  · rw [hnull, Blocks.obtain_null, Blocks.obtain_null]
    exact h
  · intro a
    rw [Blocks.obtain_apply hnull, Blocks.obtain_apply hnull]
    split_ifs
    · exact congrArg some hb
    · exact h a

theorem release (h : SameHolders held held') (memory : Address) :
    SameHolders (Blocks.release memory held) (Blocks.release memory held') := by
  intro a
  rw [Blocks.release_apply, Blocks.release_apply]
  split_ifs
  · rfl
  · exact h a

theorem giveBack (h : SameHolders held held') (memory : Address) (released : Bool)
    (answer : Address) (b : Block) :
    SameHolders (Blocks.giveBack memory released answer b held)
      (Blocks.giveBack memory released answer b held') := by
  unfold Blocks.giveBack
  split_ifs
  · exact (h.release memory).obtain answer rfl
  · exact h

theorem exists_held (h : SameHolders held held') {a : Address} {b' : Block}
    (hb' : held' a = some b') : ∃ b, held a = some b ∧ b.internal = b'.internal := by
  have hmap := h a
  rw [hb', Option.map_some] at hmap
  exact Option.map_eq_some_iff.mp hmap.symm

theorem holds_iff (h : SameHolders s.held held') (c : Caller) (memory : Address) :
    ({ s with held := held' } : System).Holds c memory ↔ s.Holds c memory := by
  have hmap := h memory
  simp only [Holds, ← Option.map_eq_some_iff]
  rw [hmap]

/-- A step can be taken with other blocks at the held addresses. -/
theorem step (h : SameHolders s.held held') {e : Event} (hstep : s.Step env e s') :
    ∃ held'', SameHolders s'.held held'' ∧
      ({ s with held := held' } : System).Step env e { s' with held := held'' } := by
  obtain ⟨hallowed, hnext⟩ := hstep
  cases e with
  | setWatchState w =>
      have hs' := (Option.some.inj hnext).symm
      subst hs'
      exact ⟨held', h, trivial, rfl⟩
  | allocate c r answer capacity =>
      have hs' := (Option.some.inj hnext).symm
      subst hs'
      exact ⟨_, h.obtain _ rfl, hallowed, rfl⟩
  | reallocate c oldMemory newRequestedSize answer capacity =>
      obtain ⟨hwatch, hholds, hanswer⟩ := hallowed
      obtain ⟨o, ho, hs'⟩ := Option.map_eq_some_iff.mp hnext
      have hholds' := (h.holds_iff c oldMemory).mpr hholds
      obtain ⟨b, hb, -⟩ := hholds
      obtain ⟨b', hb', -⟩ := id hholds'
      have hinternal : b'.internal = b.internal := by
        have hmap := h oldMemory
        dsimp only at hb'
        rw [hb, hb'] at hmap
        exact Option.some.inj hmap
      dsimp only at hb'
      simp only [hb] at hs'
      subst hs'
      refine ⟨if o.memory = 0 then held' else
        Blocks.obtain o.memory { b' with size := newRequestedSize.toNat }
          (Blocks.release oldMemory held'), ?_, ⟨hwatch, hholds', hanswer⟩, ?_⟩
      · dsimp only
        split_ifs
        · exact h
        · exact (h.release oldMemory).obtain o.memory hinternal
      · simp only [next, hb', ho, Option.map_some]
  | free c memory released answer capacity =>
      obtain ⟨hwatch, hholds, hanswer⟩ := hallowed
      have hs' := (Option.some.inj hnext).symm
      subst hs'
      refine ⟨if memory = 0 then held' else
        Blocks.giveBack memory released answer ⟨s.nextBlock, 0, c.inLibrary⟩ held', ?_,
        ⟨hwatch, hholds.imp_right (h.holds_iff c memory).mpr, hanswer⟩, rfl⟩
      dsimp only
      split_ifs
      · exact h
      · exact h.giveBack memory released answer _
  | patrol time lightOrder watchedOrder =>
      have hs' := (Option.some.inj hnext).symm
      subst hs'
      exact ⟨held', h, hallowed, rfl⟩

end SameHolders

/-- No reallocation fails. -/
def ReallocationSucceeds (env : Environment) (s : System) (e : Event) : Prop :=
  s.ReplacementSucceeds env e ∧ s.ReallocatorSucceeds e

instance (s : System) (e : Event) : Decidable (s.ReallocationSucceeds env e) :=
  inferInstanceAs (Decidable (_ ∧ _))

structure Steady (env : Environment) (s : System) : Prop where
  consistent : s.Consistent
  limited : Limited env s.table
  nullFree : s.NullFree
  lightNullFree : s.LightNullFree

theorem steady_initial (h : s.Initial) : s.Steady env where
  consistent := consistent_initial h
  limited := h.table ▸ limited_empty
  nullFree := by
    rw [NullFree, h.table]
    rfl
  lightNullFree := by
    rw [LightNullFree, h.table]
    rfl

theorem Steady.step (h : s.Steady env) {e : Event} (hsync : s.Synced e)
    (hsucceeds : s.ReallocationSucceeds env e) (hstep : s.Step env e s') : s'.Steady env where
  consistent := h.consistent.step hsync hstep
  limited := limited_step h.consistent h.limited hsucceeds.1 hstep
  nullFree := nullFree_step h.consistent.null h.nullFree hsucceeds.1 hstep
  lightNullFree := lightNullFree_step h.consistent.null h.lightNullFree hsucceeds.2.light hstep

/-- The invariant for some sizes of the held blocks. -/
def SteadyUpToSizes (env : Environment) (s : System) : Prop :=
  ∃ held', SameHolders s.held held' ∧ ({ s with held := held' } : System).Steady env

/-- No block with a record is freed while not watching, or moved then. -/
def KeepsTracked (s : System) : Event → Prop
  | .reallocate _ oldMemory _ answer _ =>
      s.watchState = .notWatching → s.table.Untracked oldMemory ∨ answer = oldMemory
  | .free _ memory _ _ _ =>
      s.watchState = .notWatching → memory = 0 ∨ s.table.Untracked memory
  | _ => True

instance (s : System) : (e : Event) → Decidable (s.KeepsTracked e)
  | .reallocate _ _ _ _ _ | .free _ _ _ _ _ => inferInstanceAs (Decidable (_ → _))
  | .setWatchState _ | .allocate _ _ _ _ | .patrol _ _ _ => inferInstanceAs (Decidable True)

/-- A reallocation while not watching leaves the table alone. -/
theorem step_reallocate_notWatching {c : Caller} {oldMemory answer : Address}
    {newRequestedSize : UInt64} {capacity : ℕ} (hnot : s.watchState = .notWatching)
    (hstep : s.Step env (.reallocate c oldMemory newRequestedSize answer capacity) s') :
    ∃ b, s.held oldMemory = some b ∧ s' = { s with
      heap := reallocated oldMemory capacity .preferred answer s.heap
      held := if answer = 0 then s.held else
        Blocks.obtain answer { b with size := newRequestedSize.toNat }
          (Blocks.release oldMemory s.held) } := by
  obtain ⟨⟨hwatch, ⟨b, hb, -⟩, -⟩, hnext⟩ := hstep
  have hbypass : Bypasses c := .inr (hwatch.trans hnot)
  obtain ⟨o, ho, hs'⟩ := Option.map_eq_some_iff.mp hnext
  rw [instrumentedReallocate, if_pos hbypass] at ho
  have ho := (Option.some.inj ho).symm
  subst ho
  simp only [hb] at hs'
  exact ⟨b, hb, hs'.symm⟩

theorem SteadyUpToSizes.step (h : s.SteadyUpToSizes env) {e : Event} (hkept : s.KeepsTracked e)
    (hsucceeds : s.ReallocationSucceeds env e) (hstep : s.Step env e s') :
    s'.SteadyUpToSizes env := by
  obtain ⟨held', hsame, hsteady⟩ := h
  by_cases hsync : s.Synced e
  · obtain ⟨held'', hsame', hstep'⟩ := hsame.step hstep
    exact ⟨held'', hsame', hsteady.step hsync hsucceeds hstep'⟩
  -- what is left is a block reallocated in place, whose new size is forgotten
  cases e with
  | setWatchState | allocate | patrol => exact absurd trivial hsync
  | free c memory released answer capacity =>
      refine absurd (fun hnot => ?_) hsync
      cases hkept hnot with
      | inl hnull => exact hnull ▸ ⟨hsteady.lightNullFree, hsteady.nullFree⟩
      | inr huntracked => exact huntracked
  | reallocate c oldMemory newRequestedSize answer capacity =>
      obtain ⟨hnot, htracked⟩ := Classical.not_imp.mp hsync
      obtain rfl := (hkept hnot).resolve_left htracked
      obtain ⟨b, hb, rfl⟩ := step_reallocate_notWatching hnot hstep
      have hnull : answer ≠ 0 := hsucceeds.2 (.inl (.inr (hstep.1.1.trans hnot)))
      refine ⟨held', fun a => ?_, ?_⟩
      · dsimp only
        rw [if_neg hnull, Blocks.move_apply hnull]
        split_ifs with ha
        · rw [ha, hsame answer, hb]
          rfl
        · exact hsame a
      · refine ⟨⟨fun a ha => ?_, hsteady.consistent.null, hsteady.consistent.tracks⟩,
          hsteady.limited, hsteady.nullFree, hsteady.lightNullFree⟩
        dsimp only [reallocated] at ha
        rw [if_neg hnull, Blocks.move_apply hnull] at ha
        split_ifs at ha
        exact hsteady.consistent.owned a ha

/-- The application holds a block at the address. -/
def HeldOutside (s : System) (a : Address) : Prop := ∃ b, s.held a = some b ∧ b.internal = false

/-- Every record is at an address that the application holds, no address has two
records, and the live counters count the records. -/
structure NoStaleRecords (s : System) : Prop where
  light : ∀ a ∈ s.table.lightAllocationsByAddress, s.HeldOutside a
  watched : ∀ a ∈ s.table.closelyWatchedAllocationsByAddress, s.HeldOutside a
  disjoint : ∀ a ∈ s.table.lightAllocationsByAddress,
    a ∉ s.table.closelyWatchedAllocationsByAddress
  live : ∀ w info, s.table.info? w = some info → info.countLiveCloselyWatchedAllocations.toNat =
    UnorderedMap.count (PointsTo w) s.table.closelyWatchedAllocationsByAddress

theorem Steady.heldOutside (h : s.Steady env) {a : Address} (ha : ¬ s.table.Untracked a) :
    s.HeldOutside a := by
  have hnull : a ≠ 0 := fun hzero => ha (hzero ▸ ⟨h.lightNullFree, h.nullFree⟩)
  have htracks := h.consistent.tracks a hnull
  by_cases hlight : s.table.lightAllocationsByAddress.lookup a = none
  · cases hwatched : s.table.closelyWatchedAllocationsByAddress.lookup a with
    | none => exact absurd ⟨hlight, hwatched⟩ ha
    | some alloc =>
        obtain ⟨-, b, hb, hext, -⟩ := htracks.watched alloc hwatched
        exact ⟨b, hb, hext⟩
  · exact (htracks.light hlight).2

theorem SteadyUpToSizes.heldOutside (h : s.SteadyUpToSizes env) {a : Address}
    (ha : ¬ s.table.Untracked a) : s.HeldOutside a := by
  obtain ⟨held', hsame, hsteady⟩ := h
  obtain ⟨b', hb', hext⟩ := hsteady.heldOutside ha
  obtain ⟨b, hb, hinternal⟩ := hsame.exists_held hb'
  exact ⟨b, hb, hinternal.trans hext⟩

theorem SteadyUpToSizes.noStaleRecords (h : s.SteadyUpToSizes env) : s.NoStaleRecords := by
  refine ⟨fun a ha => h.heldOutside fun hnone => ?_, fun a ha => h.heldOutside fun hnone => ?_,
    fun a ha hboth => ?_, fun w info hinfo => ?_⟩
  · exact Finmap.lookup_eq_none.mp hnone.1 ha
  · exact Finmap.lookup_eq_none.mp hnone.2 ha
  · obtain ⟨held', -, hsteady⟩ := h
    have hlight : s.table.lightAllocationsByAddress.lookup a ≠ none :=
      fun hnone => Finmap.lookup_eq_none.mp hnone ha
    have hnull : a ≠ 0 := fun hzero => hlight (hzero ▸ hsteady.lightNullFree)
    exact Finmap.lookup_eq_none.mp ((hsteady.consistent.tracks a hnull).light hlight).1 hboth
  · obtain ⟨held', -, hsteady⟩ := h
    have hlive := hsteady.limited.live w
    rwa [AllocationTable.info, hinfo, Option.getD_some] at hlive

/-- Every leak is reported at an address that the application holds, and a freed
block leaves no record. -/
def AccusesHeld (env : Environment) (s : System) (e : Event) (s' : System) : Prop :=
  (∀ leak ∈ s.foundLeaks env e, s.HeldOutside leak.memory) ∧
    ∀ c memory released answer capacity, e = .free c memory released answer capacity →
      memory ≠ 0 → s'.table.Untracked memory

theorem SteadyUpToSizes.accusesHeld (h : s.SteadyUpToSizes env) {e : Event}
    (hkept : s.KeepsTracked e) (hstep : s.Step env e s') : s.AccusesHeld env e s' := by
  constructor
  · intro leak hleak
    obtain ⟨held', hsame, hsteady⟩ := id h
    obtain ⟨held'', -, hstep'⟩ := hsame.step hstep
    obtain ⟨_, _, _, alloc, -, halloc, -⟩ :=
      leak_spec hsteady.consistent hsteady.nullFree hstep' hleak
    refine h.heldOutside fun hnone => ?_
    rw [hnone.2] at halloc
    exact nomatch halloc
  · intro c memory released answer capacity hevent hmemory
    subst hevent
    obtain ⟨held', hsame, hsteady⟩ := h
    obtain ⟨held'', -, hstep'⟩ := hsame.step hstep
    obtain ⟨hwatch, hholds, -, effects, t', hcase, heq⟩ := step_free hstep'
    have htable : s'.table = t' := congrArg System.table heq
    exact htable ▸ hsteady.consistent.untracked_of_freed hmemory hwatch
      (hholds.resolve_left hmemory) (fun hnot => (hkept hnot).resolve_left hmemory) hcase

/-- In every run in which no reallocation fails, whatever the changes of the watch
word: there are no stale records in any state and no freed block is accused, if
and only if no block with a record is freed or moved while not watching. -/
theorem records_fresh_iff (x : Execution Initial (Step env))
    (hsucceeds : ∀ i < x.length, (x.state i).ReallocationSucceeds env (x.event i)) :
    ((∀ i ≤ x.length, (x.state i).NoStaleRecords) ∧
      ∀ i < x.length, (x.state i).AccusesHeld env (x.event i) (x.state (i + 1))) ↔
    ∀ i < x.length, (x.state i).KeepsTracked (x.event i) := by
  constructor
  · intro ⟨hfresh, haccuses⟩ i hi
    have hstep := x.steps i hi
    have hsuccess := hsucceeds i hi
    have hfresh' := hfresh (i + 1) hi
    have haccuses' := (haccuses i hi).2
    generalize x.event i = e at *
    cases e with
    | setWatchState | allocate | patrol => exact trivial
    | free c memory released answer capacity =>
        intro hnot
        by_contra hbad
        have ⟨hmemory, htracked⟩ := not_or.mp hbad
        have hbypass : Bypasses c := .inr (hstep.1.1.trans hnot)
        have htable : (x.state (i + 1)).table = (x.state i).table := by
          rw [← Option.some.inj hstep.2]
          exact congrArg Prod.fst ((if_neg hmemory).trans (if_pos hbypass))
        exact htracked (htable ▸ haccuses' c memory released answer capacity rfl hmemory)
    | reallocate c oldMemory newRequestedSize answer capacity =>
        intro hnot
        by_contra hbad
        have ⟨htracked, hmoved⟩ := not_or.mp hbad
        have hnull : answer ≠ 0 := hsuccess.2 (.inl (.inr (hstep.1.1.trans hnot)))
        obtain ⟨b, -, heq⟩ := step_reallocate_notWatching hnot hstep
        have htable : (x.state (i + 1)).table = (x.state i).table := by rw [heq]
        have hgone : ¬ (x.state (i + 1)).HeldOutside oldMemory := by
          intro ⟨b', hb', _⟩
          rw [heq] at hb'
          dsimp only at hb'
          rw [if_neg hnull, Blocks.move_apply hnull, if_neg (Ne.symm hmoved), if_pos rfl] at hb'
          exact nomatch hb'
        refine htracked ⟨Finmap.lookup_eq_none.mpr fun ha => ?_,
          Finmap.lookup_eq_none.mpr fun ha => ?_⟩
        · exact hgone (hfresh'.light _ (htable ▸ ha))
        · exact hgone (hfresh'.watched _ (htable ▸ ha))
  · intro hkept
    have hsteady : ∀ i ≤ x.length, (x.state i).SteadyUpToSizes env := by
      refine x.holds_at _ ?_ fun i hi h => h.step (hkept i hi) (hsucceeds i hi) (x.steps i hi)
      exact ⟨_, fun _ => rfl, steady_initial x.starts⟩
    exact ⟨fun i hi => (hsteady i hi).noStaleRecords, fun i hi =>
      (hsteady i hi.le).accusesHeld (hkept i hi) (x.steps i hi)⟩

/-- Watching is switched off and on while a block has a light record; another
block is allocated and freed meanwhile. -/
def toggledRun : Execution Initial (Step .default) :=
  Execution.ofEvents
    [.setWatchState .watching,
      .allocate (callerAt 0) ⟨8, 1, 7, .unnecessary⟩ 0x1000 8,
      .setWatchState .notWatching,
      .allocate { callerAt 1 with watchState := .notWatching } ⟨8, 1, 7, .unnecessary⟩ 0x2000 8,
      .free { callerAt 2 with watchState := .notWatching } 0x2000 true 0 0,
      .setWatchState .watching,
      .free (callerAt 3) 0x1000 true 0 0]
    (.setWatchState .watching) initial_start (by decide +kernel)

theorem records_fresh_iff_toggledRun :
    (∀ i ≤ 7, (toggledRun.state i).NoStaleRecords) ∧
      ∀ i < 7, (toggledRun.state i).AccusesHeld .default (toggledRun.event i)
        (toggledRun.state (i + 1)) :=
  (records_fresh_iff toggledRun (by decide +kernel)).mpr (by decide +kernel)

/-- A closely watched block is freed while watching is switched off. -/
def staleRun : Execution Initial (Step .default) :=
  Execution.ofEvents
    [.setWatchState .watching,
      .allocate (callerAt 0) ⟨8, 1, 7, .unnecessary⟩ 0x1000 8,
      .patrol 31 [0x1000] [],
      .allocate (callerAt 40) ⟨8, 1, 7, .unnecessary⟩ 0x2000 4096,
      .setWatchState .notWatching,
      .free { callerAt 41 with watchState := .notWatching } 0x2000 true 0 0,
      .setWatchState .watching,
      .patrol 71 [] [0x2000],
      .patrol 73 [] [0x2000]]
    (.setWatchState .watching) initial_start (by decide +kernel)

/-- The freed block keeps its record, and in the end it is reported as a leak. -/
theorem stale_staleRun :
    ¬ ∀ x : Execution Initial (Step .default),
      (∀ i < x.length, (x.state i).ReallocationSucceeds .default (x.event i)) →
        (∀ i ≤ x.length, (x.state i).NoStaleRecords) ∧
          ∀ i < x.length, ∀ leak ∈ (x.state i).foundLeaks .default (x.event i),
            (x.state i).HeldOutside leak.memory := by
  intro h
  obtain ⟨b, hb, -⟩ := (h staleRun (by decide +kernel)).2 8 (by decide +kernel)
    ⟨⟨7, ⟨[1]⟩⟩, 0x2000, 8⟩ (by decide +kernel)
  have hfreed : (staleRun.state 8).held 0x2000 = none := by decide +kernel
  rw [hfreed] at hb
  exact nomatch hb

end AllocCounter.System
