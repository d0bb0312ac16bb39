import AllocCounter.Conservation
import AllocCounter.LossEstimates

/-!
# The histories of the entries

Every call of the table changes the counters of an entry by the events of its
history: an allocation skips or watches one block, a free ends one, a patrol pass
declares its leaks, and a reallocation changes nothing.
-/
namespace AllocCounter

theorem WatchedStackTraceInfo.foldl_leaks (sizes : List UInt32) (i : WatchedStackTraceInfo) :
    (sizes.map TraceEvent.leak).foldl handle i =
      { i with
        countLiveCloselyWatchedAllocations :=
          i.countLiveCloselyWatchedAllocations - UInt32.ofNat sizes.length
        countLeakedCloselyWatchedAllocations :=
          i.countLeakedCloselyWatchedAllocations + UInt32.ofNat sizes.length
        countTotalLeakedMemory :=
          i.countTotalLeakedMemory + UInt64.ofNat (sizes.map UInt32.toNat).sum } := by
  induction sizes generalizing i with
  | nil => simp
  | cons size sizes ih =>
      rw [List.map_cons, List.foldl_cons, ih]
      simp only [handle, List.length_cons, List.map_cons, List.sum_cons, UInt32.ofNat_add,
        UInt64.ofNat_add, UInt64.ofNat_uInt32ToNat, WatchedStackTraceInfo.mk.injEq, true_and,
        and_true]
      exact ⟨by grind, by grind, by grind⟩

namespace AllocationTable

variable {env : Environment} {t t' : AllocationTable} {w : TraceEntry}

/-- At most one entry changes, by one event. -/
structure HandlesOne (t t' : AllocationTable) (entry : TraceEntry) (e : TraceEvent) : Prop where
  self : t'.info entry = (t.info entry).handle e
  other : ∀ w, w ≠ entry → t'.info w = t.info w

theorem handlesOne_modifyInfo {entry : TraceEntry} {e : TraceEvent} (h : t.Known entry)
    {f : WatchedStackTraceInfo → WatchedStackTraceInfo} (hf : ∀ i, f i = i.handle e) :
    HandlesOne t (t.modifyInfo entry f) entry e where
  self := by rw [info_modifyInfo h, if_pos rfl, hf]
  other w hw := by rw [info_modifyInfo h, if_neg hw]

/-- An allocation changes nothing, skips, or watches. -/
theorem instrumentedAllocate_info (env : Environment) (t : AllocationTable) (c : Caller) (size alignment : UInt32)
    (fingerprint : CallstackFingerprint) (real : RealCall → Address) (zeroFill : ZeroFill) :
    (∀ w, (t.instrumentedAllocate env c size alignment fingerprint real zeroFill).table.info w =
        t.info w) ∨
      ¬ Bypasses c ∧ ∃ e, (e = .skip ∨ e = .watch) ∧ HandlesOne t
        (t.instrumentedAllocate env c size alignment fingerprint real zeroFill).table
        ⟨fingerprint, c.stackTrace⟩ e := by
  unfold instrumentedAllocate
  by_cases hbypass : Bypasses c
  · rw [if_pos hbypass]
    exact .inl fun _ => rfl
  rw [if_neg hbypass]
  cases hfp : t.suspiciousFingerprints.lookup fingerprint with
  | none =>
      dsimp only
      split_ifs
      · exact .inl fun _ => rfl
      · exact .inl fun _ => rfl
  | some traces =>
      dsimp only
      generalize hstats : ({ t with stats := _ } : AllocationTable) = t₁
      have hfp₁ : t₁.suspiciousFingerprints.lookup fingerprint = some traces := hstats ▸ hfp
      have hinfo₁ : ∀ w, t₁.info w = t.info w := fun w => hstats ▸ rfl
      have ⟨_, _, hknown, _⟩ := getOrCreate_spec t₁ c.stackTrace hfp₁
      have hsame := getOrCreate_info t₁ c.stackTrace hfp₁
      generalize t₁.getOrCreate fingerprint traces c.stackTrace = p at *
      obtain ⟨t₂, i⟩ := p
      dsimp only at *
      have hinfo₂ : ∀ w, t₂.info w = t.info w := fun w => (hsame w).trans (hinfo₁ w)
      have hlift : ∀ {t' : AllocationTable} {e : TraceEvent},
          HandlesOne t₂ t' ⟨fingerprint, c.stackTrace⟩ e →
          HandlesOne t t' ⟨fingerprint, c.stackTrace⟩ e := fun h =>
        ⟨h.self.trans (by rw [hinfo₂]), fun w hw => (h.other w hw).trans (hinfo₂ w)⟩
      split_ifs
      · exact .inl hinfo₂
      · have hwatch := handlesOne_modifyInfo (e := .watch) hknown fun _ => rfl
        exact .inr ⟨hbypass, .watch, .inr rfl, hlift ⟨hwatch.self, hwatch.other⟩⟩
      · exact .inr ⟨hbypass, .skip, .inl rfl, hlift (handlesOne_modifyInfo hknown fun _ => rfl)⟩

theorem instrumentedReallocate_suspicious {c : Caller} {oldMemory : Address}
    {newRequestedSize : UInt64} {real : RealCall → Address} {o : Outcome}
    (h : t.instrumentedReallocate env c oldMemory newRequestedSize real = some o) :
    o.table.suspiciousFingerprints = t.suspiciousFingerprints ∧
      o.table.countLiveCloselyWatchedAllocationsAllTraces =
        t.countLiveCloselyWatchedAllocationsAllTraces := by
  unfold instrumentedReallocate at h
  split_ifs at h
  · rw [← Option.some.inj h]
    exact ⟨rfl, rfl⟩
  · dsimp only at h
    split at h
    · rw [← Option.some.inj h]
      exact ⟨rfl, rfl⟩
    · split at h
      · split_ifs at h <;> rw [← Option.some.inj h] <;> exact ⟨rfl, rfl⟩
      · rw [← Option.some.inj h]
        exact ⟨rfl, rfl⟩

theorem instrumentedReallocate_info {c : Caller} {oldMemory : Address}
    {newRequestedSize : UInt64} {real : RealCall → Address} {o : Outcome}
    (h : t.instrumentedReallocate env c oldMemory newRequestedSize real = some o)
    (w : TraceEntry) : o.table.info w = t.info w := by
  rw [info, info?, (instrumentedReallocate_suspicious h).1, ← info?, ← info]

/-- A free changes nothing, or ends the record of a closely watched block. -/
theorem instrumentedFree_info (t : AllocationTable) (c : Caller) (memory : Address)
    (real : RealCall → Address) :
    (∀ w, (t.instrumentedFree c memory real).1.info w = t.info w) ∨
      ∃ alloc, t.closelyWatchedAllocationsByAddress.lookup memory = some alloc ∧
        (t.Known alloc.watchedStackTraceInfo → HandlesOne t (t.instrumentedFree c memory real).1
          alloc.watchedStackTraceInfo .free) := by
  unfold instrumentedFree
  split_ifs
  · exact .inl fun _ => rfl
  · exact .inl fun _ => rfl
  · dsimp only
    split
    · exact .inl fun _ => rfl
    · split
      · rename_i alloc halloc
        refine .inr ⟨alloc, halloc, fun hknown => ?_⟩
        generalize hstats : ({ t with stats := _ } : AllocationTable) = t₁
        have hinfo₁ : ∀ w, t₁.info w = t.info w := fun w => hstats ▸ rfl
        have hknown₁ : t₁.Known alloc.watchedStackTraceInfo := hstats ▸ hknown
        have hfree := handlesOne_modifyInfo (e := .free) hknown₁ fun _ => rfl
        exact ⟨hfree.self.trans (by rw [hinfo₁]), fun w hw => (hfree.other w hw).trans (hinfo₁ w)⟩
      · exact .inl fun _ => rfl

/-- The events of one entry in a list of leaks. -/
def leakHistory (w : TraceEntry) (leaks : List FoundLeak) : TraceHistory :=
  (leaks.filter fun leak => leak.stackTrace = w).map fun leak => .leak leak.size

theorem leakHistory_append (w : TraceEntry) (leaks leaks' : List FoundLeak) :
    leakHistory w (leaks ++ leaks') = leakHistory w leaks ++ leakHistory w leaks' := by
  simp [leakHistory]

/-- What the reports of some leaks do to the entries and the global counter. -/
structure Reports (t t' : AllocationTable) (leaks : List FoundLeak) : Prop where
  info? : ∀ w, t'.info? w = (t.info? w).map fun i =>
    (leakHistory w leaks).foldl WatchedStackTraceInfo.handle i
  global : t'.countLiveCloselyWatchedAllocationsAllTraces =
    t.countLiveCloselyWatchedAllocationsAllTraces - UInt32.ofNat leaks.length
  stats : t'.stats = t.stats

theorem Reports.none (hinfo : ∀ w, t'.info? w = t.info? w)
    (hglobal : t'.countLiveCloselyWatchedAllocationsAllTraces =
      t.countLiveCloselyWatchedAllocationsAllTraces) (hstats : t'.stats = t.stats) :
    Reports t t' [] where
  info? w := (hinfo w).trans Option.map_id'.symm
  global := by simpa using hglobal
  stats := hstats

theorem Reports.trans {t'' : AllocationTable} {leaks leaks' : List FoundLeak}
    (h : Reports t t' leaks) (h' : Reports t' t'' leaks') : Reports t t'' (leaks ++ leaks') where
  info? w := by
    rw [h'.info?, h.info?, Option.map_map, leakHistory_append]
    simp only [List.foldl_append, Function.comp_def]
  global := by
    rw [h'.global, h.global, List.length_append, UInt32.ofNat_add]
    grind
  stats := h'.stats.trans h.stats

theorem patrolLight_reports (now : UInt32) (t : AllocationTable) (key : Address) :
    Reports t (t.patrolLight now key) [] := by
  unfold patrolLight
  cases t.lightAllocationsByAddress.lookup key with
  | none => exact .none (fun _ => rfl) rfl rfl
  | some alloc =>
      dsimp only
      split_ifs
      · exact .none (info?_addSuspiciousFingerprint t alloc.fingerprint) rfl rfl
      · exact .none (fun _ => rfl) rfl rfl

theorem patrolWatched_reports (env : Environment) (now : UInt32) (t : AllocationTable)
    (leaks : List FoundLeak) (key : Address) :
    Reports t (patrolWatched env now (t, leaks) key).1
      (leakOf now (t.closelyWatchedAllocationsByAddress.lookup key)).toList := by
  unfold patrolWatched
  dsimp only
  cases hkey : t.closelyWatchedAllocationsByAddress.lookup key with
  | none => exact .none (fun _ => rfl) rfl rfl
  | some alloc =>
      dsimp only
      by_cases hdeadline : alloc.deadline < now
      · rw [if_pos hdeadline]
        cases hstate : alloc.state with
        | notYetSuspicious =>
            have hnone : leakOf now (some alloc) = none := by simp [leakOf, hstate]
            rw [hnone]
            exact .none (fun _ => rfl) rfl rfl
        | suspicious =>
            have hsome : leakOf now (some alloc) =
                some ⟨alloc.watchedStackTraceInfo, alloc.memory, alloc.requestedSize⟩ := by
              simp [leakOf, hstate, hdeadline]
            rw [hsome, Option.toList_some]
            refine ⟨fun w => ?_, by simp [finishWatched], by simp [finishWatched]⟩
            refine (info?_modifyInfo t alloc.watchedStackTraceInfo _ w).trans ?_
            split_ifs with hw
            · simp [leakHistory, hw, WatchedStackTraceInfo.handle]
            · simp [leakHistory, Ne.symm hw]
      · have hnone : leakOf now (some alloc) = none := by simp [leakOf, hdeadline]
        rw [if_neg hdeadline, hnone]
        exact .none (fun _ => rfl) rfl rfl

theorem foldl_patrolLight_reports (now : UInt32) (order : List Address) (t : AllocationTable) :
    Reports t (order.foldl (patrolLight now) t) [] := by
  induction order generalizing t with
  | nil => exact .none (fun _ => rfl) rfl rfl
  | cons key rest ih => exact (patrolLight_reports now t key).trans (ih _)

theorem foldl_patrolWatched_reports (env : Environment) (now : UInt32) (order : List Address)
    (t : AllocationTable) (leaks : List FoundLeak) :
    ∃ new, (order.foldl (patrolWatched env now) (t, leaks)).2 = leaks ++ new ∧
      Reports t (order.foldl (patrolWatched env now) (t, leaks)).1 new := by
  induction order generalizing t leaks with
  | nil => exact ⟨[], by simp, .none (fun _ => rfl) rfl rfl⟩
  | cons key rest ih =>
      have hleaks := (patrolWatched_cases env now t leaks key).1
      obtain ⟨new, hnew, hrest⟩ := ih (patrolWatched env now (t, leaks) key).1
        (patrolWatched env now (t, leaks) key).2
      refine ⟨(leakOf now (t.closelyWatchedAllocationsByAddress.lookup key)).toList ++ new, ?_,
        (patrolWatched_reports env now t leaks key).trans hrest⟩
      rw [List.foldl_cons, hnew, hleaks, List.append_assoc]

/-- A pass changes the counters by the leaks that it reports. -/
theorem patrol_reports (env : Environment) (t : AllocationTable) (time : UInt64)
    (lightOrder watchedOrder : List Address) :
    Reports t (t.patrolThreadUpdateAllocationStates env time lightOrder watchedOrder).1
      (t.patrolThreadUpdateAllocationStates env time lightOrder watchedOrder).2.2 := by
  have hlight := foldl_patrolLight_reports time.toUInt32 lightOrder t
  obtain ⟨new, hnew, hwatched⟩ := foldl_patrolWatched_reports env time.toUInt32 watchedOrder
    (lightOrder.foldl (patrolLight time.toUInt32) t) []
  rw [List.nil_append] at hnew
  unfold patrolThreadUpdateAllocationStates
  rw [hnew]
  exact hlight.trans hwatched

end AllocationTable

end AllocCounter
