import AllocCounter.WatchLimits

/-!
# The judgement of a trace

What `hasLeaks` says about an entry is a statement about the run so far: which of
its closely watched blocks were declared leaked, and how many were freed while
watched. The leaked counter counts the leaks that the passes report, and the rest
follows from the conservation of closely watched allocations.
-/
namespace AllocCounter

namespace AllocationTable

variable {env : Environment} {t t' : AllocationTable} {freed : TraceEntry → ℕ} {n : ℕ}

/-- The leaks of an entry among those that a pass reports. -/
def leaksOf (w : TraceEntry) (leaks : List FoundLeak) : ℕ :=
  leaks.countP fun leak => leak.stackTrace = w

theorem leaksOf_append (w : TraceEntry) (leaks leaks' : List FoundLeak) :
    leaksOf w (leaks ++ leaks') = leaksOf w leaks + leaksOf w leaks' :=
  List.countP_append

theorem leaksOf_pos_iff {w : TraceEntry} {leaks : List FoundLeak} :
    0 < leaksOf w leaks ↔ ∃ leak ∈ leaks, leak.stackTrace = w := by
  simp [leaksOf, List.countP_pos_iff]

/-- The visit of a key counts the leak that it reports. -/
theorem patrolWatched_leaked (env : Environment) (now : UInt32)
    {s : AllocationTable × List FoundLeak}
    (h : Books s.1 freed n) (hn : n < 2 ^ 32) (key : Address) :
    ∃ new, (patrolWatched env now s key).2 = s.2 ++ new ∧ ∀ w,
      ((patrolWatched env now s key).1.info w).countLeakedCloselyWatchedAllocations.toNat =
        (s.1.info w).countLeakedCloselyWatchedAllocations.toNat + leaksOf w new := by
  obtain ⟨t, leaks⟩ := s
  unfold patrolWatched
  dsimp only
  cases hkey : t.closelyWatchedAllocationsByAddress.lookup key with
  | none => exact ⟨[], by simp, fun w => by simp [leaksOf]⟩
  | some alloc =>
      dsimp only
      split_ifs
      · cases alloc.state with
        | notYetSuspicious => exact ⟨[], by simp, fun w => rfl⟩
        | suspicious =>
            refine ⟨_, rfl, fun w => ?_⟩
            dsimp only
            have hremove : RemovesWatched t (t.finishWatched key alloc fun i => { i with
                countLeakedCloselyWatchedAllocations := i.countLeakedCloselyWatchedAllocations + 1
                countTotalLeakedMemory :=
                  i.countTotalLeakedMemory + alloc.requestedSize.toUInt64 }) key alloc True :=
              finishWatched_spec (h.known key alloc hkey) _ True (fun _ => rfl) (fun _ => rfl)
                fun _ => rfl
            rw [h.leaked_remove hkey hremove hn]
            simp [leaksOf, List.countP_singleton, PointsTo]
      · exact ⟨[], by simp, fun w => by simp [leaksOf]⟩

/-- The second loop counts the leaks that it reports. -/
theorem foldl_patrolWatched_leaked (env : Environment) (now : UInt32) (hn : n < 2 ^ 32)
    (order : List Address) (s : AllocationTable × List FoundLeak) (h : Books s.1 freed n) :
    ∃ new, (order.foldl (patrolWatched env now) s).2 = s.2 ++ new ∧ ∀ w,
      ((order.foldl (patrolWatched env now) s).1.info
          w).countLeakedCloselyWatchedAllocations.toNat =
        (s.1.info w).countLeakedCloselyWatchedAllocations.toNat + leaksOf w new := by
  induction order generalizing s with
  | nil => exact ⟨[], by simp, fun w => rfl⟩
  | cons key rest ih =>
      obtain ⟨new, hnew, hleaked⟩ := patrolWatched_leaked env now h hn key
      have hvisit := h.visit hn (patrolWatched_visit env now s key)
      obtain ⟨later, hlater, hleaked'⟩ := ih _ hvisit
      refine ⟨new ++ later, ?_, fun w => ?_⟩
      · rw [List.foldl_cons, hlater, hnew, List.append_assoc]
      · rw [List.foldl_cons, hleaked', hleaked, leaksOf_append, Nat.add_assoc]

/-- The entry of `w` is not lost, and `created` closely watched allocations of it
are created. -/
structure Creates (w : TraceEntry) (created : UInt32) (t t' : AllocationTable) : Prop where
  known : t.Known w → t'.Known w
  created : (t'.info w).countTotalCloselyWatchedAllocationsEverCreated =
    (t.info w).countTotalCloselyWatchedAllocationsEverCreated + created

theorem SameCounters.creates_none (h : SameCounters t t') (w : TraceEntry) : Creates w 0 t t' :=
  ⟨h.known w, by rw [h.created, UInt32.add_zero]⟩

theorem creates_none_patrol (w : TraceEntry) (h : LiveCounts t) (time : UInt64)
    {lightOrder : List Address} (watchedOrder : List Address)
    (hlight : UnorderedMap.Enumerates lightOrder t.lightAllocationsByAddress) :
    Creates w 0 t (t.patrolThreadUpdateAllocationStates env time lightOrder watchedOrder).1 := by
  have hsame := (foldl_patrolLight time.toUInt32 t hlight).1
  refine (foldl_patrolWatched_induction env time.toUInt32
    (P := fun u => LiveCounts u ∧ Creates w 0 t u) ?_ watchedOrder (_, [])
    ⟨h.same hsame, hsame.creates_none w⟩).2
  intro u key u' ⟨hu, hnone⟩ hvisit
  cases hvisit with
  | kept => exact ⟨hu, hnone⟩
  | moved alloc alloc' hkey hentry => exact ⟨hu.update hkey hentry, hnone.known, hnone.created⟩
  | leaked u' alloc hkey hremove =>
      have hremoves := hremove (hu.known key alloc hkey)
      exact ⟨hu.remove hkey hremoves, fun hw => hremoves.known w (hnone.known hw),
        (hremoves.created w).trans hnone.created⟩

end AllocationTable

namespace WatchedStackTraceInfo

variable {env : Environment} {info : WatchedStackTraceInfo}

theorem hasLeaks_eq_true_iff :
    info.hasLeaks env = .true ↔ 0 < info.countLeakedCloselyWatchedAllocations.toNat := by
  have hpos : info.countLeakedCloselyWatchedAllocations > 0 ↔
      0 < info.countLeakedCloselyWatchedAllocations.toNat := UInt32.lt_iff_toNat_lt
  unfold hasLeaks
  rw [← hpos]
  split_ifs with hleaked <;> simp [hleaked]

theorem hasLeaks_eq_false_iff :
    info.hasLeaks env = .false ↔ ¬ 0 < info.countLeakedCloselyWatchedAllocations.toNat ∧
      env.enoughSamplesToProveNoLeak.toNat ≤ info.countFinishedWatchedAllocations.toNat := by
  have hpos : info.countLeakedCloselyWatchedAllocations > 0 ↔
      0 < info.countLeakedCloselyWatchedAllocations.toNat := UInt32.lt_iff_toNat_lt
  have hle : info.countFinishedWatchedAllocations ≥ env.enoughSamplesToProveNoLeak ↔
      env.enoughSamplesToProveNoLeak.toNat ≤ info.countFinishedWatchedAllocations.toNat :=
    UInt32.le_iff_toNat_le
  unfold hasLeaks
  rw [← hpos, ← hle]
  split_ifs with hleaked henough
  · simp [hleaked]
  · simp [hleaked, henough]
  · simp [henough]

end WatchedStackTraceInfo

namespace System

open AllocationTable

variable {env : Environment} {s s' : System}

/-- A step counts the leaks that it reports. -/
theorem leaked_step {freed : TraceEntry → ℕ} {n : ℕ} (h : Books s.table freed n) (hn : n < 2 ^ 32)
    {e : Event} (hstep : s.Step env e s') (w : TraceEntry) :
    (s'.table.info w).countLeakedCloselyWatchedAllocations.toNat =
      (s.table.info w).countLeakedCloselyWatchedAllocations.toNat +
        leaksOf w (s.foundLeaks env e) := by
  cases e with
  | setWatchState w =>
      have hs' := (Option.some.inj hstep.2).symm
      subst hs'
      rfl
  | allocate c r answer capacity =>
      obtain ⟨-, -, effects, t', hcase, rfl⟩ := step_allocate hstep
      cases hcase with
      | untracked t' call memory hsame => exact congrArg UInt32.toNat (hsame.leaked w)
      | light t' hbypass hsame => exact congrArg UInt32.toNat (hsame.leaked w)
      | watched t' call hcall hwatches hnull hlight hadd =>
          exact congrArg UInt32.toNat (hadd.leaked w)
  | reallocate c oldMemory newRequestedSize answer capacity =>
      obtain ⟨-, -, b, o, -, -, hcase, rfl⟩ := step_reallocate hstep
      cases hcase with
      | untracked t' hsame => exact congrArg UInt32.toNat (hsame.leaked w)
      | light t' alloc hbypass hrecord hsame => exact congrArg UInt32.toNat (hsame.leaked w)
      | replaced t' call alloc hcall hfinds hpages hsame =>
          exact congrArg UInt32.toNat (hsame.leaked w)
      | kept t' alloc hfinds hpages hsame => exact congrArg UInt32.toNat (hsame.leaked w)
  | free c memory released answer capacity =>
      obtain ⟨-, -, -, effects, t', hcase, rfl⟩ := step_free hstep
      cases hcase with
      | null => rfl
      | untracked t' hnull hsame => exact congrArg UInt32.toNat (hsame.leaked w)
      | light t' hnull hsame => exact congrArg UInt32.toNat (hsame.leaked w)
      | watched t' alloc hnull hfinds hlight hwatched hremove =>
          have hremoves := hremove (h.known _ _ hfinds.2.2)
          simpa [foundLeaks, leaksOf] using h.leaked_remove hfinds.2.2 hremoves hn w
  | patrol time lightOrder watchedOrder =>
      obtain ⟨hlight, -, rfl⟩ := step_patrol hstep
      have hsame := (foldl_patrolLight time.toUInt32 s.table hlight).1
      obtain ⟨new, hnew, hleaked⟩ := foldl_patrolWatched_leaked env
        time.toUInt32 hn watchedOrder (_, []) (h.same hsame)
      have hfound : s.foundLeaks env (.patrol time lightOrder watchedOrder) = new := hnew
      rw [hfound]
      exact (hleaked w).trans (congrArg (· + _) (congrArg UInt32.toNat (hsame.leaked w)))

/-- The event starts a closely watched allocation of `w`. -/
def StartsWatched (env : Environment) (w : TraceEntry) (s : System) : Event → Prop
  | .allocate c r answer _ =>
      Watches env s.table c r.fingerprint ∧ answer ≠ 0 ∧ ⟨r.fingerprint, c.stackTrace⟩ = w
  | _ => False

/-- A step that does not start a closely watched allocation of `w` creates none. -/
theorem creates_step (h : LiveCounts s.table) {e : Event} (hstep : s.Step env e s')
    (w : TraceEntry) : (s.table.Known w → s'.table.Known w) ∧
      (¬ StartsWatched env w s e → Creates w 0 s.table s'.table) := by
  suffices hall : Creates w 0 s.table s'.table ∨
      StartsWatched env w s e ∧ (s.table.Known w → s'.table.Known w) by
    cases hall with
    | inl hnone => exact ⟨hnone.known, fun _ => hnone⟩
    | inr hstarts => exact ⟨hstarts.2, fun hnot => absurd hstarts.1 hnot⟩
  cases e with
  | setWatchState w =>
      have hs' := (Option.some.inj hstep.2).symm
      subst hs'
      exact .inl ⟨id, (UInt32.add_zero _).symm⟩
  | allocate c r answer capacity =>
      obtain ⟨-, -, effects, t', hcase, rfl⟩ := step_allocate hstep
      cases hcase with
      | untracked t' call memory hsame => exact .inl (hsame.creates_none w)
      | light t' hbypass hsame => exact .inl (hsame.creates_none w)
      | watched t' call hcall hwatches hnull hlight hadd =>
          by_cases hw : (⟨r.fingerprint, c.stackTrace⟩ : TraceEntry) = w
          · exact .inr ⟨⟨hwatches, hnull, hw⟩, hadd.known w⟩
          · refine .inl ⟨hadd.known w, (hadd.created w).trans ?_⟩
            rw [if_neg (by exact hw)]
  | reallocate c oldMemory newRequestedSize answer capacity =>
      obtain ⟨-, -, b, o, -, -, hcase, rfl⟩ := step_reallocate hstep
      cases hcase with
      | untracked t' hsame => exact .inl (hsame.creates_none w)
      | light t' alloc hbypass hrecord hsame => exact .inl (hsame.creates_none w)
      | replaced t' call alloc hcall hfinds hpages hsame =>
          exact .inl ⟨hsame.known w, (hsame.creates_none w).created⟩
      | kept t' alloc hfinds hpages hsame =>
          exact .inl ⟨hsame.known w, (hsame.creates_none w).created⟩
  | free c memory released answer capacity =>
      obtain ⟨-, -, -, effects, t', hcase, rfl⟩ := step_free hstep
      cases hcase with
      | null => exact .inl ⟨id, (UInt32.add_zero _).symm⟩
      | untracked t' hnull hsame => exact .inl (hsame.creates_none w)
      | light t' hnull hsame => exact .inl (hsame.creates_none w)
      | watched t' alloc hnull hfinds hlight hwatched hremove =>
          have hremoves := hremove (h.known _ _ hfinds.2.2)
          exact .inl ⟨hremoves.known w, by rw [hremoves.created, UInt32.add_zero]⟩
  | patrol time lightOrder watchedOrder =>
      obtain ⟨hlight, -, rfl⟩ := step_patrol hstep
      exact .inl (creates_none_patrol w h time watchedOrder hlight)

/-- An allocation of `w` that is not watched leaves the closely watched records. -/
theorem watched_eq_of_not_starts {w : TraceEntry} {c : Caller} {r : Request} {answer : Address}
    {capacity : ℕ} (hstep : s.Step env (.allocate c r answer capacity) s')
    (hw : ⟨r.fingerprint, c.stackTrace⟩ = w)
    (hnot : ¬ StartsWatched env w s (.allocate c r answer capacity)) :
    s'.table.closelyWatchedAllocationsByAddress = s.table.closelyWatchedAllocationsByAddress := by
  obtain ⟨-, -, effects, t', hcase, rfl⟩ := step_allocate hstep
  cases hcase with
  | untracked t' call memory hsame => exact hsame.watched
  | light t' hbypass hsame => exact hsame.watched
  | watched t' call hcall hwatches hnull => exact absurd ⟨hwatches, hnull, hw⟩ hnot

variable (x : Execution Initial (Step env))

/-- Some pass before state `i` declared a closely watched block of `w` leaked. -/
def DeclaredLeak (w : TraceEntry) (i : ℕ) : Prop :=
  ∃ k < i, ∃ leak ∈ (x.state k).foundLeaks env (x.event k), leak.stackTrace = w

theorem declaredLeak_succ {w : TraceEntry} {i : ℕ} : DeclaredLeak x w (i + 1) ↔
    DeclaredLeak x w i ∨ 0 < leaksOf w ((x.state i).foundLeaks env (x.event i)) := by
  rw [leaksOf_pos_iff]
  constructor
  · intro ⟨k, hk, hleak⟩
    cases Nat.lt_succ_iff_lt_or_eq.mp hk with
    | inl hlt => exact .inl ⟨k, hlt, hleak⟩
    | inr heq => exact .inr (heq ▸ hleak)
  · rintro (⟨k, hk, hleak⟩ | hleak)
    · exact ⟨k, hk.trans (Nat.lt_succ_self i), hleak⟩
    · exact ⟨i, Nat.lt_succ_self i, hleak⟩

/-- The judgement of a trace may go from unknown to any other one, and from not
leaky to leaky. -/
def MayBecome : Trilean → Trilean → Prop
  | .unknown, _ => True
  | .false, v => v = .false ∨ v = .true
  | .true, v => v = .true

section Judged

variable {x} (hway : OneWay x)
  (hreplace : ∀ i < x.length, (x.state i).ReplacementSucceeds env (x.event i))
  (hcount : x.occurrences Allocates x.length < 2 ^ 32)

include hway hreplace hcount

theorem leaked_pos_iff (w : TraceEntry) : ∀ i ≤ x.length,
    (0 < ((x.state i).table.info w).countLeakedCloselyWatchedAllocations.toNat ↔
      DeclaredLeak x w i) := by
  refine x.holds_at _ ?_ fun i hi h => ?_
  · rw [x.starts.table]
    have hzero : ((AllocationTable.empty.info w).countLeakedCloselyWatchedAllocations).toNat = 0 :=
      rfl
    rw [hzero]
    exact ⟨fun h => absurd h (lt_irrefl 0), fun ⟨k, hk, _⟩ => absurd hk (Nat.not_lt_zero k)⟩
  · have hbooks := books_at x hway hreplace hcount i hi.le
    have hlt := (x.occurrences_mono Allocates hi.le).trans_lt hcount
    rw [leaked_step hbooks hlt (x.steps i hi), declaredLeak_succ, ← h]
    omega

theorem hasLeaks_iff {i : ℕ} (hi : i ≤ x.length) {w : TraceEntry} {info : WatchedStackTraceInfo}
    (hinfo : (x.state i).table.info? w = some info) :
    (info.hasLeaks env = .true ↔ DeclaredLeak x w i) ∧
      (info.hasLeaks env = .false ↔ ¬ DeclaredLeak x w i ∧
        env.enoughSamplesToProveNoLeak.toNat ≤ x.occurrences (FreesWatched w) i) := by
  have hbooks := books_at x hway hreplace hcount i hi
  have hleaked := leaked_pos_iff hway hreplace hcount w i hi
  have hcreated := hbooks.created w
  have hentry : (x.state i).table.info w = info := by rw [AllocationTable.info, hinfo]; rfl
  rw [hentry] at hleaked hcreated
  have hle : info.countLiveCloselyWatchedAllocations.toNat ≤
      info.countTotalCloselyWatchedAllocationsEverCreated.toNat := by omega
  have hfinished : info.countFinishedWatchedAllocations.toNat =
      info.countLeakedCloselyWatchedAllocations.toNat + x.occurrences (FreesWatched w) i := by
    rw [WatchedStackTraceInfo.countFinishedWatchedAllocations,
      UInt32.toNat_sub_of_le _ _ (UInt32.le_iff_toNat_le.mpr hle)]
    omega
  rw [WatchedStackTraceInfo.hasLeaks_eq_true_iff, WatchedStackTraceInfo.hasLeaks_eq_false_iff,
    hleaked, hfinished]
  refine ⟨Iff.rfl, and_congr_right fun hnone => ?_⟩
  have hzero := Nat.not_lt.mp (hleaked.not.mpr hnone)
  omega

theorem mayBecome_step {i : ℕ} (hi : i < x.length) {w : TraceEntry}
    {info info' : WatchedStackTraceInfo} (hinfo : (x.state i).table.info? w = some info)
    (hinfo' : (x.state (i + 1)).table.info? w = some info') :
    MayBecome (info.hasLeaks env) (info'.hasLeaks env) := by
  have ⟨htrue, hfalse⟩ := hasLeaks_iff hway hreplace hcount hi.le hinfo
  have ⟨htrue', hfalse'⟩ := hasLeaks_iff hway hreplace hcount hi hinfo'
  have hmono := x.occurrences_mono (FreesWatched w) (Nat.le_succ i)
  cases hjudged : info.hasLeaks env with
  | unknown => trivial
  | true => exact htrue'.mpr ((declaredLeak_succ x).mpr (.inl (htrue.mp hjudged)))
  | false =>
      have ⟨_, henough⟩ := hfalse.mp hjudged
      by_cases hdeclared : DeclaredLeak x w (i + 1)
      · exact .inr (htrue'.mpr hdeclared)
      · exact .inl (hfalse'.mpr ⟨hdeclared, henough.trans hmono⟩)

/-- What the judgement of an entry means in every state of a run with a one-way
start signal and fewer than `2 ^ 32` allocations, how it may change with a step,
and that a step creates no closely watched block of a trace judged not leaky. -/
theorem judgement_sound :
    (∀ i ≤ x.length, ∀ w info, (x.state i).table.info? w = some info →
      (info.hasLeaks env = .true ↔ DeclaredLeak x w i) ∧
      (info.hasLeaks env = .false ↔ ¬ DeclaredLeak x w i ∧
        env.enoughSamplesToProveNoLeak.toNat ≤ x.occurrences (FreesWatched w) i)) ∧
    ∀ i < x.length, ∀ w info, (x.state i).table.info? w = some info →
      ∃ info', (x.state (i + 1)).table.info? w = some info' ∧
        MayBecome (info.hasLeaks env) (info'.hasLeaks env) ∧
        (info.hasLeaks env = .false →
          info'.countTotalCloselyWatchedAllocationsEverCreated =
              info.countTotalCloselyWatchedAllocationsEverCreated ∧
          ∀ c r answer capacity, x.event i = .allocate c r answer capacity →
            ⟨r.fingerprint, c.stackTrace⟩ = w →
            (x.state (i + 1)).table.closelyWatchedAllocationsByAddress =
              (x.state i).table.closelyWatchedAllocationsByAddress) := by
  refine ⟨fun i hi w info hinfo => hasLeaks_iff hway hreplace hcount hi hinfo, ?_⟩
  intro i hi w info hinfo
  have hcounts := (books_at x hway hreplace hcount i hi.le).liveCounts
  have hentry : (x.state i).table.info w = info := by rw [AllocationTable.info, hinfo]; rfl
  have hcreates := creates_step hcounts (x.steps i hi) w
  obtain ⟨info', hinfo'⟩ := Option.isSome_iff_exists.mp (hcreates.1 (by simp [Known, hinfo]))
  have hentry' : (x.state (i + 1)).table.info w = info' := by
    rw [AllocationTable.info, hinfo']
    rfl
  refine ⟨info', hinfo', mayBecome_step hway hreplace hcount hi hinfo hinfo', fun hfalse => ?_⟩
  have hnot : ¬ StartsWatched env w (x.state i) (x.event i) := by
    intro hstarts
    generalize x.event i = e at hstarts
    cases e with
    | setWatchState | reallocate | free | patrol => exact hstarts
    | allocate c r answer capacity =>
        have hleaks := (below_limits hstarts.1.2.2).2.2
        rw [hstarts.2.2, hentry] at hleaks
        exact hleaks hfalse
  refine ⟨?_, fun c r answer capacity hevent hw => ?_⟩
  · have hsame := (hcreates.2 hnot).created
    rwa [hentry, hentry', UInt32.add_zero] at hsame
  · have hstep := x.steps i hi
    rw [hevent] at hstep hnot
    exact watched_eq_of_not_starts hstep hw hnot

end Judged

/-- The judgement of the trace of the run, after its leak. -/
theorem judgement_sound_leakRun :
    (leakInfo.hasLeaks .default = .true ↔ DeclaredLeak leakRun leakEntry 8) :=
  ((judgement_sound oneWay_leakRun (by decide +kernel) (by decide +kernel)).1 8 le_rfl leakEntry
    leakInfo (by decide +kernel)).1

end System

end AllocCounter
