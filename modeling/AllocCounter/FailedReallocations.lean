import AllocCounter.Overstayers

/-!
# Failed reallocations

A failed reallocation leaves the old block to the application. The table keeps
its record as it was only where the call does not reach the table: a light record
is moved to `NULL`, and for a closely watched one the copy goes to `NULL`.
-/
namespace AllocCounter

namespace AllocationTable

variable (env : Environment)

/-- The call of a real allocator that a reallocation of a block with a record
makes: that of the wrapper, or `memalign` to replace a closely watched block. -/
inductive Asks (t : AllocationTable) (c : Caller) (oldMemory : Address)
    (newRequestedSize : UInt64) : RealCall → Prop
  | preferred : Bypasses c ∨ t.lightAllocationsByAddress.lookup oldMemory ≠ none →
      Asks t c oldMemory newRequestedSize .preferred
  | replacing (alloc : CloselyWatchedAllocation) : FindsWatched t c oldMemory alloc →
      Repaginates env alloc newRequestedSize →
      Asks t c oldMemory newRequestedSize (replacingCall env newRequestedSize)

/-- Both address maps, the suspicious tables and all counters of traces are the
same. -/
structure SameTracking (t t' : AllocationTable) : Prop where
  light : t'.lightAllocationsByAddress = t.lightAllocationsByAddress
  watched : t'.closelyWatchedAllocationsByAddress = t.closelyWatchedAllocationsByAddress
  suspicious : t'.suspiciousFingerprints = t.suspiciousFingerprints
  global : t'.countLiveCloselyWatchedAllocationsAllTraces =
    t.countLiveCloselyWatchedAllocationsAllTraces

/-- The call returns `NULL` and changes nothing that is tracked. -/
def FailsCleanly (t : AllocationTable) (c : Caller) (oldMemory : Address)
    (newRequestedSize : UInt64) (real : RealCall → Address) : Prop :=
  ∃ o, t.instrumentedReallocate env c oldMemory newRequestedSize real = some o ∧ o.memory = 0 ∧
    SameTracking t o.table

variable {env} {t : AllocationTable} {c : Caller} {oldMemory : Address} {newRequestedSize : UInt64}
  {real : RealCall → Address}

/-- A call with a record, in which the allocator fails, is clean exactly when it
goes past the table. -/
theorem failsCleanly_iff (hold : oldMemory ≠ 0) (htracked : ¬ t.Untracked oldMemory)
    (hfails : ∃ call, Asks env t c oldMemory newRequestedSize call ∧ real call = 0) :
    FailsCleanly env t c oldMemory newRequestedSize real ↔ Bypasses c := by
  obtain ⟨call, hasks, hnull⟩ := hfails
  constructor
  · intro ⟨o, ho, _, hsame⟩
    by_contra hbypass
    have hcase := instrumentedReallocate_cases env t c oldMemory newRequestedSize real
    rw [ho] at hcase
    cases hcase with
    | untracked t' hcounters hlight hrecord => exact hrecord.elim hbypass htracked
    | light t' alloc hwatching hrecord hcounters hlight =>
        have hmoved : real .preferred ≠ oldMemory := by
          cases hasks with
          | preferred => exact hnull ▸ Ne.symm hold
          | replacing alloc' hfinds =>
              rw [hfinds.2.1] at hrecord
              exact nomatch hrecord
        rw [if_pos hmoved] at hlight
        have hgone := (congrArg (Finmap.lookup oldMemory) hlight).trans (lookup_rekey _ _ _ _ _)
        rw [if_pos rfl, hsame.light, hrecord] at hgone
        exact nomatch hgone
    | replaced t' call alloc hcall hfinds hpages hcounters =>
        have hgone := (congrArg (Finmap.lookup oldMemory) hcounters.watched).trans
          (lookup_rekey _ _ _ _ _)
        rw [if_pos rfl, hsame.watched, hfinds.2.2] at hgone
        exact nomatch hgone
    | kept t' alloc hfinds hpages =>
        cases hasks with
        | preferred hrecord => exact hrecord.elim hbypass fun hlight => hlight hfinds.2.1
        | replacing alloc' hfinds' hpages' =>
            have heq := Option.some.inj (hfinds'.2.2.symm.trans hfinds.2.2)
            exact hpages (heq ▸ hpages')
  · intro hbypass
    have hpreferred : real .preferred = 0 := by
      cases hasks with
      | preferred => exact hnull
      | replacing alloc hfinds => exact absurd hbypass hfinds.1
    refine ⟨⟨t, 0, [.real .preferred 0]⟩, ?_, rfl, rfl, rfl, rfl, rfl⟩
    rw [instrumentedReallocate, if_pos hbypass, hpreferred]

end AllocationTable

namespace System

open AllocationTable

variable {env : Environment} {s s' : System}

/-- No record is keyed by `NULL`. -/
def NoNullKey (s : System) : Prop := s.LightNullFree ∧ s.NullFree

/-- A reallocation that finds a record does not fail. -/
def TrackedReallocationSucceeds (env : Environment) (s : System) (e : Event) : Prop :=
  s.LightReallocationSucceeds e ∧ s.ReplacementSucceeds env e

instance (s : System) (e : Event) : Decidable (s.TrackedReallocationSucceeds env e) :=
  inferInstanceAs (Decidable (_ ∧ _))

theorem held_null_at (x : Execution Initial (Step env)) :
    ∀ i ≤ x.length, (x.state i).held 0 = none :=
  x.holds_at _ x.starts.null fun i hi h => held_null_step h (x.steps i hi)

/-- A failed reallocation of a block with a record leaves a record at `NULL`. -/
theorem succeeds_of_noNullKey (hheld : s.held 0 = none) {e : Event} (hstep : s.Step env e s')
    (h : s'.NoNullKey) : s.TrackedReallocationSucceeds env e := by
  cases e with
  | setWatchState | allocate | free | patrol => exact ⟨trivial, trivial⟩
  | reallocate c oldMemory newRequestedSize answer capacity =>
      obtain ⟨-, -, b, o, hb, -, hcase, rfl⟩ := step_reallocate hstep
      have hold := Ne.symm (ne_null_of_held hheld hb)
      constructor
      · intro hbypass hlight hnull
        cases hcase with
        | untracked t' hsame hkept hrecord =>
            exact hrecord.elim hbypass fun hnone => hlight hnone.1
        | replaced t' call alloc hcall hfinds => exact hlight hfinds.2.1
        | kept t' alloc hfinds => exact hlight hfinds.2.1
        | light t' alloc hwatching hrecord hsame hmap =>
            rw [hnull, if_pos hold] at hmap
            have hkey := h.1
            rw [LightNullFree, hmap, lookup_rekey, if_neg hold, if_pos rfl] at hkey
            cases hkey
      · rintro ⟨alloc, hfinds, hpages⟩ hnull
        cases hcase with
        | untracked t' hsame hkept hrecord =>
            have hnone := (hrecord.resolve_left hfinds.1).2
            rw [hfinds.2.2] at hnone
            cases hnone
        | light t' alloc' hwatching hrecord =>
            rw [hfinds.2.1] at hrecord
            cases hrecord
        | kept t' alloc' hfinds' hkeeps =>
            have heq := Option.some.inj (hfinds.2.2.symm.trans hfinds'.2.2)
            exact hkeeps (heq ▸ hpages)
        | replaced t' call alloc' hcall hfinds' hpages' hsame =>
            have hkey := h.2
            rw [NullFree, hsame.watched, lookup_rekey, if_neg hold, if_pos hnull.symm] at hkey
            cases hkey

/-- In every run, whatever its allocators answer: a reallocation of a block with a
record, in which the allocator fails, returns `NULL` and keeps all that is
tracked if and only if it goes past the table; and no state has a record keyed by
`NULL` if and only if no reallocation that finds a record fails. -/
theorem failed_reallocations_clean_iff (x : Execution Initial (Step env)) :
    (∀ i ≤ x.length, ∀ c oldMemory newRequestedSize real, oldMemory ≠ 0 →
      ¬ (x.state i).table.Untracked oldMemory →
      (∃ call, Asks env (x.state i).table c oldMemory newRequestedSize call ∧ real call = 0) →
      (FailsCleanly env (x.state i).table c oldMemory newRequestedSize real ↔ Bypasses c)) ∧
    ((∀ i ≤ x.length, (x.state i).NoNullKey) ↔
      ∀ i < x.length, (x.state i).TrackedReallocationSucceeds env (x.event i)) := by
  refine ⟨fun i _ c oldMemory newRequestedSize real hold htracked hfails =>
    failsCleanly_iff hold htracked hfails, fun h i hi => ?_, fun h => ?_⟩
  · exact succeeds_of_noNullKey (held_null_at x i hi.le) (x.steps i hi) (h (i + 1) hi)
  · refine x.holds_at _ ?_ fun i hi hnull => ?_
    · constructor
      · rw [LightNullFree, x.starts.table]
        rfl
      · rw [NullFree, x.starts.table]
        rfl
    · have hheld := held_null_at x i hi.le
      exact ⟨lightNullFree_step hheld hnull.1 (h i hi).1 (x.steps i hi),
        nullFree_step hheld hnull.2 (h i hi).2 (x.steps i hi)⟩

/-- While not watching, a failed reallocation of the block at `0x1000` is clean,
and the run has no record at `NULL`. -/
theorem failed_reallocations_clean_iff_leakRun :
    FailsCleanly .default (leakRun.state 2).table
        { callerAt 1 with watchState := .notWatching } 0x1000 100 (fun _ => 0) ∧
      ∀ i ≤ 8, (leakRun.state i).NoNullKey := by
  have h := failed_reallocations_clean_iff leakRun
  refine ⟨(h.1 2 (by decide) _ _ _ _ (by decide) (by decide +kernel)
    ⟨.preferred, .preferred (.inl (.inr rfl)), rfl⟩).mpr (.inr rfl), h.2.mpr (by decide +kernel)⟩

/-- While watching, the record of the block at `0x1000` is moved to `NULL`. -/
theorem not_failsCleanly_leakRun :
    ¬ ∀ (x : Execution Initial (Step .default)), ∀ i ≤ x.length, ∀ c oldMemory newRequestedSize real,
      oldMemory ≠ 0 → ¬ (x.state i).table.Untracked oldMemory →
      (∃ call, Asks .default (x.state i).table c oldMemory newRequestedSize call ∧ real call = 0) →
      FailsCleanly .default (x.state i).table c oldMemory newRequestedSize real := by
  intro h
  obtain ⟨o, ho, -, hsame⟩ := h leakRun 2 (by decide) (callerAt 1) 0x1000 100 (fun _ => 0) (by decide)
    (by decide +kernel) ⟨.preferred, .preferred (.inr (by decide +kernel)), rfl⟩
  have hmoved : ((leakRun.state 2).table.instrumentedReallocate .default (callerAt 1) 0x1000 100
      fun _ => 0).map (fun o : Outcome => o.table.lightAllocationsByAddress.lookup 0x1000) =
        some none := by decide +kernel
  rw [ho, Option.map_some, Option.some.injEq, hsame.light] at hmoved
  revert hmoved
  decide +kernel

end System

end AllocCounter
