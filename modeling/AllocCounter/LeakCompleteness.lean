import AllocCounter.LeakSoundness

/-!
# What a pass reports

The calls alone decide what a pass reports. A block given out as a closely
watched one waits for the first pass past its time, and then for the first pass
past the deadline that this one sets, which reports it; only a call that is given
the block to free stops this. Clock readings need not be ordered.
-/
namespace AllocCounter.System

open AllocationTable

variable {env : Environment} {s s' : System}

/-- The call is given the block to free. The record goes, also when the real
function then fails. -/
def Frees (s : System) (e : Event) (number : ℕ) : Prop :=
  ∃ c memory released answer capacity b, e = .free c memory released answer capacity ∧
    s.held memory = some b ∧ b.number = number

def HasRecord (s : System) (number : ℕ) (alloc : CloselyWatchedAllocation) : Prop :=
  ∃ a b, s.held a = some b ∧ b.number = number ∧
    s.table.closelyWatchedAllocationsByAddress.lookup a = some alloc

/-- What a reallocation keeps of a record. -/
structure Carries (alloc alloc' : CloselyWatchedAllocation) : Prop where
  state : alloc'.state = alloc.state
  deadline : alloc'.deadline = alloc.deadline
  watchedStackTraceInfo : alloc'.watchedStackTraceInfo = alloc.watchedStackTraceInfo

theorem Carries.refl (alloc : CloselyWatchedAllocation) : Carries alloc alloc := ⟨rfl, rfl, rfl⟩

theorem HasRecord.unique {number : ℕ} {alloc alloc' : CloselyWatchedAllocation}
    (hnumbered : Numbered s.held s.nextBlock) (h : s.HasRecord number alloc)
    (h' : s.HasRecord number alloc') : alloc' = alloc := by
  obtain ⟨a, b, hb, hnumber, halloc⟩ := h
  obtain ⟨a', b', hb', hnumber', halloc'⟩ := h'
  have ha := hnumbered.inj a' b' a b hb' hb (hnumber'.trans hnumber.symm)
  rw [ha, halloc] at halloc'
  exact (Option.some.inj halloc').symm

theorem HasRecord.carried_reallocate (hc : s.Consistent) {c : Caller} {oldMemory answer : Address}
    {newRequestedSize : UInt64} {capacity : ℕ}
    (hreplace : s.ReplacementSucceeds env
      (.reallocate c oldMemory newRequestedSize answer capacity))
    (hsync : s.Synced (.reallocate c oldMemory newRequestedSize answer capacity))
    (hstep : s.Step env (.reallocate c oldMemory newRequestedSize answer capacity) s')
    {number : ℕ} {alloc : CloselyWatchedAllocation} (hnull : s.NullFree)
    (h : s.HasRecord number alloc) :
    ∃ alloc', s'.HasRecord number alloc' ∧ Carries alloc alloc' := by
  obtain ⟨a, b, hb, hnumber, halloc⟩ := h
  obtain ⟨hwatch, hanswer, b₀, o, hb₀, hinternal, hcase, rfl⟩ := step_reallocate hstep
  have ha : a ≠ 0 := ne_of_lookup halloc hnull
  have hold := hc.ne_null hb₀
  -- the block moves to an address without a record, so the other records stay
  have hstays : a ≠ oldMemory → a ≠ answer := by
    intro hne heq
    cases hc.moves hanswer (heq ▸ ha) with
    | inl hkept => exact hne (heq.trans hkept)
    | inr hfresh => exact ne_of_lookup halloc hfresh.2 heq
  cases hcase with
  | untracked t' hsame hlight hrecord =>
      have hne := ne_of_lookup halloc
        (hc.untracked_of_bypass hwatch ⟨b₀, hb₀, hinternal⟩ hsync hrecord).2
      exact ⟨alloc, ⟨a, b, (moved_elsewhere hne (hstays hne) _ _).trans hb, hnumber,
        (congrArg _ hsame.watched).trans halloc⟩, .refl alloc⟩
  | light t' alloc₀ hbypass hrecord hsame =>
      have hne := ne_of_lookup halloc ((hc.tracks oldMemory hold).light (by simp [hrecord])).1
      exact ⟨alloc, ⟨a, b, (moved_elsewhere hne (hstays hne) _ _).trans hb, hnumber,
        (congrArg _ hsame.watched).trans halloc⟩, .refl alloc⟩
  | replaced t' call alloc₀ hcall hfinds hpages hsame =>
      have hanswer₀ := hreplace ⟨alloc₀, hfinds, hpages⟩
      have hlookup : ∀ a', t'.closelyWatchedAllocationsByAddress.lookup a' = _ :=
        fun a' => (congrArg _ hsame.watched).trans (lookup_rekey _ _ _ _ a')
      by_cases hmoved : a = oldMemory
      · subst hmoved
        rw [hb] at hb₀
        rw [hfinds.2.2] at halloc
        have hfresh := hc.untracked_of_fresh hanswer₀
          (hanswer.resolve_right fun hkept => hkept.2 ⟨alloc₀, hfinds, hpages⟩)
        have hne : answer ≠ a := (ne_of_lookup hfinds.2.2 hfresh.2).symm
        refine ⟨{ alloc₀ with requestedSize := newRequestedSize.toUInt32, memory := answer },
          ⟨answer, { b with size := newRequestedSize.toNat }, ?_, hnumber, ?_⟩, ?_⟩
        · dsimp only
          rw [if_neg hanswer₀, Blocks.obtain_self hanswer₀, ← Option.some.inj hb₀]
        · rw [hlookup, if_neg hne, if_pos rfl, hfresh.2]
          rfl
        · rw [← Option.some.inj halloc]
          exact ⟨rfl, rfl, rfl⟩
      · refine ⟨alloc, ⟨a, b, (moved_elsewhere hmoved (hstays hmoved) _ _).trans hb, hnumber, ?_⟩,
          .refl alloc⟩
        rw [hlookup, if_neg hmoved, if_neg (hstays hmoved), halloc]
  | kept t' alloc₀ hfinds hpages hsame =>
      have hlookup : ∀ a', t'.closelyWatchedAllocationsByAddress.lookup a' = _ :=
        fun a' => (congrArg _ hsame.watched).trans (UnorderedMap.lookup_insert_eq _ a' _ _)
      by_cases hmoved : a = oldMemory
      · subst hmoved
        rw [hb] at hb₀
        rw [hfinds.2.2] at halloc
        refine ⟨{ alloc₀ with requestedSize := newRequestedSize.toUInt32 },
          ⟨a, { b with size := newRequestedSize.toNat }, ?_, hnumber, ?_⟩, ?_⟩
        · dsimp only
          rw [if_neg ha, Blocks.obtain_self ha, ← Option.some.inj hb₀]
        · rw [hlookup, if_pos rfl]
        · rw [← Option.some.inj halloc]
          exact ⟨rfl, rfl, rfl⟩
      · refine ⟨alloc, ⟨a, b, (moved_elsewhere hmoved hmoved _ _).trans hb, hnumber, ?_⟩,
          .refl alloc⟩
        rw [hlookup, if_neg hmoved, halloc]

theorem HasRecord.carried_free (hc : s.Consistent) {c : Caller} {memory answer : Address}
    {released : Bool} {capacity : ℕ}
    (hstep : s.Step env (.free c memory released answer capacity) s') {number : ℕ}
    {alloc : CloselyWatchedAllocation} (hnull : s.NullFree)
    (hkept : ¬ s.Frees (.free c memory released answer capacity) number)
    (h : s.HasRecord number alloc) : s'.HasRecord number alloc := by
  obtain ⟨a, b, hb, hnumber, halloc⟩ := h
  obtain ⟨hwatch, hholds, hanswer, effects, t', hcase, rfl⟩ := step_free hstep
  have hne : a ≠ memory := by
    intro heq
    exact hkept ⟨c, memory, released, answer, capacity, b, rfl, heq ▸ hb, hnumber⟩
  have hne' : a ≠ answer := by
    intro heq
    cases hanswer with
    | inl hfresh =>
        exact ne_of_lookup halloc
          (hc.untracked_of_fresh (heq ▸ ne_of_lookup halloc hnull) hfresh).2 heq
    | inr hsame => exact hne (heq.trans hsame)
  refine ⟨a, b, (freed_elsewhere released hne hne' _ _).trans hb, hnumber, ?_⟩
  cases hcase with
  | null => exact halloc
  | untracked t' hmemory hsame => exact (congrArg _ hsame.watched).trans halloc
  | light t' hmemory hsame => exact (congrArg _ hsame.watched).trans halloc
  | watched t' alloc₀ hmemory hfinds hlight hwatched =>
      exact (congrArg _ hwatched).trans ((Finmap.lookup_erase_ne hne).trans halloc)

/-- Whatever happens between two passes, a block that is not freed keeps its
record. -/
theorem HasRecord.carried (hc : s.Consistent) (hnull : s.NullFree) {e : Event}
    (hreplace : s.ReplacementSucceeds env e) (hsync : s.Synced e) (hstep : s.Step env e s')
    (hcall : ∀ time lightOrder watchedOrder, e ≠ .patrol time lightOrder watchedOrder) {number : ℕ}
    {alloc : CloselyWatchedAllocation} (hkept : ¬ s.Frees e number)
    (h : s.HasRecord number alloc) :
    ∃ alloc', s'.HasRecord number alloc' ∧ Carries alloc alloc' := by
  cases e with
  | setWatchState w =>
      have hs' := (Option.some.inj hstep.2).symm
      subst hs'
      exact ⟨alloc, h, .refl alloc⟩
  | allocate c r answer capacity =>
      obtain ⟨a, b, hb, hnumber, halloc⟩ := h
      obtain ⟨-, hfresh, effects, t', hcase, rfl⟩ := step_allocate hstep
      have hne : a ≠ answer := fun heq => ne_of_lookup halloc
        (hc.untracked_of_fresh (heq ▸ ne_of_lookup halloc hnull) hfresh).2 heq
      refine ⟨alloc, ⟨a, b, (Blocks.obtain_of_ne _ _ hne).trans hb, hnumber, ?_⟩, .refl alloc⟩
      cases hcase with
      | untracked t' call memory hsame => exact (congrArg _ hsame.watched).trans halloc
      | light t' hbypass hsame => exact (congrArg _ hsame.watched).trans halloc
      | watched t' call hcall hwatches hnull hlight hadd =>
          exact (congrArg _ hadd.watched).trans ((Finmap.lookup_insert_of_ne _ hne).trans halloc)
  | reallocate => exact h.carried_reallocate hc hreplace hsync hstep hnull
  | free => exact ⟨alloc, h.carried_free hc hstep hnull hkept, .refl alloc⟩
  | patrol time lightOrder watchedOrder => exact absurd rfl (hcall time lightOrder watchedOrder)

/-- A pass leaves of a record what its visit makes of it. -/
theorem HasRecord.patrolled {time : UInt64} {lightOrder watchedOrder : List Address}
    (hstep : s.Step env (.patrol time lightOrder watchedOrder) s') {number : ℕ}
    {alloc alloc' : CloselyWatchedAllocation} (h : s.HasRecord number alloc)
    (hafter : watchedAfter env time.toUInt32 (some alloc) = some alloc') :
    s'.HasRecord number alloc' := by
  obtain ⟨a, b, hb, hnumber, halloc⟩ := h
  obtain ⟨hlight, hwatched, rfl⟩ := step_patrol hstep
  refine ⟨a, b, hb, hnumber, ?_⟩
  rw [((patrol_spec env s.table time hlight hwatched).2 a).2, halloc, hafter]

/-- A record was made by the call that gave the block its number, or was there
before, and the call did not free the block. -/
theorem HasRecord.previous (hc : s.Consistent) (hnumbered : Numbered s.held s.nextBlock)
    (hnull' : s'.NullFree) {e : Event} (hsync : s.Synced e) (hstep : s.Step env e s') {number : ℕ}
    {alloc' : CloselyWatchedAllocation} (h : s'.HasRecord number alloc') :
    number = s.nextBlock ∨ ¬ s.Frees e number ∧ ∃ alloc, s.HasRecord number alloc ∧
      ∀ time lightOrder watchedOrder, e = .patrol time lightOrder watchedOrder →
        watchedAfter env time.toUInt32 (some alloc) = some alloc' := by
  obtain ⟨a, b', hb', hnumber, halloc'⟩ := h
  have ha := ne_of_lookup halloc' hnull'
  cases recordStep hc hsync hstep ha halloc' with
  | born c r capacity hevent hwatches hrecord hheld =>
      rw [hb'] at hheld
      rw [← hnumber, Option.some.inj hheld]
      exact .inl rfl
  | stays halloc hheld =>
      have hb := hheld.symm.trans hb'
      refine .inr ⟨?_, alloc', ⟨a, b', hb, hnumber, halloc⟩, ?_⟩
      · rintro ⟨c, memory, released, answer, capacity, b, rfl, hfreed, hfreedNumber⟩
        have heq := hnumbered.inj a b' memory b hb hfreed (hnumber.trans hfreedNumber.symm)
        obtain ⟨hwatch, hholds, -, effects, t', hcase, rfl⟩ := step_free hstep
        have hmemory := hc.ne_null hfreed
        have hgone := hc.untracked_of_freed hmemory hwatch (hholds.resolve_left hmemory) hsync hcase
        rw [heq, hgone.2] at halloc'
        exact nomatch halloc'
      · rintro time lightOrder watchedOrder rfl
        obtain ⟨hlight, hwatched, rfl⟩ := step_patrol hstep
        rw [((patrol_spec env s.table time hlight hwatched).2 a).2, halloc] at halloc'
        exact halloc'
  | replaced c oldMemory newRequestedSize capacity alloc b hevent hfinds hpages hrecord hb hheld =>
      rw [hb'] at hheld
      subst hevent
      refine .inr ⟨fun hfrees => ?_, alloc, ⟨oldMemory, b, hb, ?_, hfinds.2.2⟩, fun _ _ _ he => ?_⟩
      · obtain ⟨_, _, _, _, _, _, he, -⟩ := hfrees
        exact nomatch he
      · rw [← hnumber, Option.some.inj hheld]
      · exact nomatch he
  | kept c newRequestedSize answer capacity alloc b hevent hfinds hpages hrecord hb hheld =>
      rw [hb'] at hheld
      subst hevent
      refine .inr ⟨fun hfrees => ?_, alloc, ⟨a, b, hb, ?_, hfinds.2.2⟩, fun _ _ _ he => ?_⟩
      · obtain ⟨_, _, _, _, _, _, he, -⟩ := hfrees
        exact nomatch he
      · rw [← hnumber, Option.some.inj hheld]
      · exact nomatch he
  | suspected time lightOrder watchedOrder alloc hevent halloc hstate hexpired hrecord hheld =>
      subst hevent
      refine .inr ⟨fun hfrees => ?_, alloc, ⟨a, b', hheld.symm.trans hb', hnumber, halloc⟩,
        fun time' _ _ he => ?_⟩
      · obtain ⟨_, _, _, _, _, _, he, -⟩ := hfrees
        exact nomatch he
      · obtain ⟨rfl, rfl, rfl⟩ := Event.patrol.inj he
        simp [watchedAfter, hexpired, hstate, hrecord]

/-- The time that a pass reads. -/
def passTime : Event → Option ℕ
  | .patrol time _ _ => some time.toNat
  | _ => none

theorem exists_of_passTime {e : Event} {t : ℕ} (h : passTime e = some t) :
    ∃ time lightOrder watchedOrder, e = .patrol time lightOrder watchedOrder ∧ time.toNat = t := by
  cases e with
  | patrol time lightOrder watchedOrder =>
      exact ⟨time, lightOrder, watchedOrder, rfl, Option.some.inj h⟩
  | setWatchState | allocate | reallocate | free => exact nomatch h

section Stages

variable (x : Execution Initial (Step env))

/-- Event `i` gives out the block, at time `t`, as a closely watched one of the
trace. -/
def GivenWatched (i t number : ℕ) (entry : TraceEntry) : Prop :=
  ∃ c r answer capacity, x.event i = .allocate c r answer capacity ∧
    Watches env (x.state i).table c r.fingerprint ∧ answer ≠ 0 ∧ c.time.toNat = t ∧
    number = (x.state i).nextBlock ∧ entry = ⟨r.fingerprint, c.stackTrace⟩

/-- No pass strictly between the events reads a time past `t`. -/
def NonePast (i j t : ℕ) : Prop :=
  ∀ m, i < m → m < j → ∀ time ∈ passTime (x.event m), time ≤ t

/-- Event `j` is the first pass after event `i` that reads a time past `t`. -/
structure FirstPassPast (i t j time : ℕ) : Prop where
  after : i < j
  pass : passTime (x.event j) = some time
  past : t < time
  first : NonePast x i j t

/-- No call strictly between the events is given the block to free. -/
def Unfreed (i n number : ℕ) : Prop :=
  ∀ m, i < m → m < n → ¬ (x.state m).Frees (x.event m) number

/-- When a closely watched block becomes suspicious, if its time comes. -/
def watchEnd (env : Environment) (t : ℕ) : ℕ := t + env.timeForAllocationToBecomeSuspicious.toNat

/-- When a suspicious block is declared a leak, if its time comes. -/
def accessEnd (env : Environment) (time : ℕ) : ℕ :=
  time + env.closelyWatchedAllocationsAccessMaxInterval.toNat

/-- Where the block stands before event `n`. -/
inductive Stage (i t number : ℕ) (entry : TraceEntry) (n : ℕ) : Prop
  | waiting (alloc : CloselyWatchedAllocation) : (x.state n).HasRecord number alloc →
      alloc.state = .notYetSuspicious → alloc.deadline.toNat = watchEnd env t →
      alloc.watchedStackTraceInfo = entry → Unfreed x i n number →
      NonePast x i n (watchEnd env t) → Stage i t number entry n
  | suspected (alloc : CloselyWatchedAllocation) (j time : ℕ) :
      (x.state n).HasRecord number alloc → alloc.state = .suspicious →
      alloc.deadline.toNat = accessEnd env time → alloc.watchedStackTraceInfo = entry →
      Unfreed x i n number → FirstPassPast x i (watchEnd env t) j time → j < n →
      NonePast x j n (accessEnd env time) → Stage i t number entry n
  | reported (j time k time' : ℕ) : (∀ alloc, ¬ (x.state n).HasRecord number alloc) →
      FirstPassPast x i (watchEnd env t) j time → FirstPassPast x j (accessEnd env time) k time' →
      k < n → Stage i t number entry n
  | freed (m : ℕ) : (∀ alloc, ¬ (x.state n).HasRecord number alloc) → i < m → m < n →
      (x.state m).Frees (x.event m) number → Stage i t number entry n

variable {x} {i t j n number time : ℕ} {entry : TraceEntry}

theorem FirstPassPast.unique {j' time' : ℕ} (h : FirstPassPast x i t j time)
    (h' : FirstPassPast x i t j' time') : j = j' ∧ time = time' := by
  obtain hlt | heq | hgt := Nat.lt_trichotomy j j'
  · exact absurd (h'.first j h.after hlt time h.pass) (Nat.not_le.mpr h.past)
  · subst heq
    exact ⟨rfl, Option.some.inj (h.pass.symm.trans h'.pass)⟩
  · exact absurd (h.first j' h'.after hgt time' h'.pass) (Nat.not_le.mpr h'.past)

theorem Unfreed.succ (h : Unfreed x i n number)
    (hn : ¬ (x.state n).Frees (x.event n) number) : Unfreed x i (n + 1) number := by
  intro m him hm
  cases Nat.lt_succ_iff_lt_or_eq.mp hm with
  | inl hlt => exact h m him hlt
  | inr heq => exact heq ▸ hn

theorem NonePast.succ (h : NonePast x i n t) (hn : ∀ time ∈ passTime (x.event n), time ≤ t) :
    NonePast x i (n + 1) t := by
  intro m him hm
  cases Nat.lt_succ_iff_lt_or_eq.mp hm with
  | inl hlt => exact h m him hlt
  | inr heq => exact heq ▸ hn

/-- Between an event and the next one there is nothing. -/
theorem nonePast_next (i t : ℕ) : NonePast x i (i + 1) t := by
  intro m him hm
  omega

theorem GivenWatched.next (h : GivenWatched x i t number entry) (hi : i < x.length)
    (hfit : TimesFit env (x.event i)) :
    number < (x.state (i + 1)).nextBlock ∧ ∃ alloc, (x.state (i + 1)).HasRecord number alloc ∧
      alloc.state = .notYetSuspicious ∧ alloc.deadline.toNat = watchEnd env t ∧
      alloc.watchedStackTraceInfo = entry := by
  obtain ⟨c, r, answer, capacity, hevent, hwatches, hnull, rfl, rfl, rfl⟩ := h
  have hstep := x.steps i hi
  rw [hevent] at hstep hfit
  dsimp only [TimesFit] at hfit
  obtain ⟨-, hfresh, effects, t', hcase, hs'⟩ := step_allocate hstep
  have htime := toUInt32_toNat (w := c.time) (by omega)
  rw [hs']
  refine ⟨Nat.lt_succ_self _, ?_⟩
  cases hcase with
  | untracked t' call memory hsame hlight hmemory hcall =>
      cases hcall with
      | inl hskips => exact absurd hwatches hskips.2
      | inr hfails => exact absurd hfails hnull
  | light t' hbypass hsame hnot hlight hskips => exact absurd hwatches hskips
  | watched t' call hcall hwatches hnot hlight hadd =>
      refine ⟨_, ⟨answer, _, Blocks.obtain_self hnull _ _, rfl,
        (congrArg _ hadd.watched).trans (Finmap.lookup_insert _)⟩, rfl, ?_, rfl⟩
      dsimp only
      rw [toNat_add (by omega), htime, watchEnd]

end Stages

section Run

variable {x : Execution Initial (Step env)}
  (hsynced : ∀ i < x.length, (x.state i).Synced (x.event i))
  (hreplace : ∀ i < x.length, (x.state i).ReplacementSucceeds env (x.event i))

include hsynced hreplace

theorem nullFree_of_synced : ∀ i ≤ x.length, (x.state i).NullFree := by
  refine x.holds_at _ ?_ fun i hi h => ?_
  · rw [NullFree, x.starts.table]
    rfl
  · exact nullFree_step (consistent_at x hsynced i hi.le).null h (hreplace i hi) (x.steps i hi)

/-- Where a record of a block given out earlier comes from. -/
theorem previous_at {n number : ℕ} (hn : n < x.length) (hlt : number < (x.state n).nextBlock)
    {alloc' : CloselyWatchedAllocation} (h : (x.state (n + 1)).HasRecord number alloc') :
    ¬ (x.state n).Frees (x.event n) number ∧ ∃ alloc, (x.state n).HasRecord number alloc ∧
      ∀ time lightOrder watchedOrder, x.event n = .patrol time lightOrder watchedOrder →
        watchedAfter env time.toUInt32 (some alloc) = some alloc' := by
  have hprevious := h.previous (consistent_at x hsynced n hn.le) (numbered_at x n hn.le)
    (nullFree_of_synced hsynced hreplace (n + 1) hn) (hsynced n hn) (x.steps n hn)
  exact hprevious.resolve_left hlt.ne

/-- A block whose record is gone does not get another one. -/
theorem gone_succ {n number : ℕ} (hn : n < x.length) (hlt : number < (x.state n).nextBlock)
    (h : ∀ alloc, ¬ (x.state n).HasRecord number alloc) :
    ∀ alloc, ¬ (x.state (n + 1)).HasRecord number alloc := by
  intro alloc' halloc'
  obtain ⟨-, alloc, halloc, -⟩ := previous_at hsynced hreplace hn hlt halloc'
  exact h alloc halloc

/-- A pass that drops the record of a block. -/
theorem gone_of_watchedAfter {n number : ℕ} (hn : n < x.length)
    (hlt : number < (x.state n).nextBlock) {alloc : CloselyWatchedAllocation}
    (h : (x.state n).HasRecord number alloc) {time : UInt64} {lightOrder watchedOrder : List Address}
    (hevent : x.event n = .patrol time lightOrder watchedOrder)
    (hafter : watchedAfter env time.toUInt32 (some alloc) = none) :
    ∀ alloc, ¬ (x.state (n + 1)).HasRecord number alloc := by
  intro alloc' halloc'
  obtain ⟨-, alloc₀, halloc₀, hvisit⟩ := previous_at hsynced hreplace hn hlt halloc'
  have heq := h.unique (numbered_at x n hn.le) halloc₀
  have hsome := hvisit time lightOrder watchedOrder hevent
  rw [heq, hafter] at hsome
  exact nomatch hsome

/-- What a call that is no pass does to the record of a block. -/
theorem called_at {n number : ℕ} (hn : n < x.length) (hlt : number < (x.state n).nextBlock)
    {alloc : CloselyWatchedAllocation} (h : (x.state n).HasRecord number alloc)
    (hcall : ∀ time lightOrder watchedOrder, x.event n ≠ .patrol time lightOrder watchedOrder) :
    ((x.state n).Frees (x.event n) number ∧
      ∀ alloc', ¬ (x.state (n + 1)).HasRecord number alloc') ∨
    (¬ (x.state n).Frees (x.event n) number ∧
      ∃ alloc', (x.state (n + 1)).HasRecord number alloc' ∧ Carries alloc alloc') := by
  by_cases hfrees : (x.state n).Frees (x.event n) number
  · exact .inl ⟨hfrees, fun alloc' halloc' =>
      (previous_at hsynced hreplace hn hlt halloc').1 hfrees⟩
  · exact .inr ⟨hfrees, h.carried (consistent_at x hsynced n hn.le)
      (nullFree_of_synced hsynced hreplace n hn.le) (hreplace n hn) (hsynced n hn) (x.steps n hn) hcall
      hfrees⟩

variable (htimes : ∀ i < x.length, TimesFit env (x.event i))

include htimes

omit hsynced hreplace in
/-- Whether a pass finds a record past its deadline. -/
theorem expired_iff {n d : ℕ} (hn : n < x.length) {time : UInt64}
    {lightOrder watchedOrder : List Address}
    (hevent : x.event n = .patrol time lightOrder watchedOrder) {alloc : CloselyWatchedAllocation}
    (hdeadline : alloc.deadline.toNat = d) :
    (alloc.deadline < time.toUInt32 ↔ d < time.toNat) ∧
      (time.toUInt32 + env.closelyWatchedAllocationsAccessMaxInterval).toNat =
        accessEnd env time.toNat := by
  have hfit := htimes n hn
  rw [hevent] at hfit
  dsimp only [TimesFit] at hfit
  have htime := toUInt32_toNat (w := time) (by omega)
  rw [UInt32.lt_iff_toNat_lt, toNat_add (by omega), htime, hdeadline]
  exact ⟨Iff.rfl, rfl⟩

theorem Stage.succ {i t number n : ℕ} {entry : TraceEntry} (hin : i < n) (hn : n < x.length)
    (hlt : number < (x.state n).nextBlock) (h : Stage x i t number entry n) :
    Stage x i t number entry (n + 1) := by
  have hpassed : ∀ {time lightOrder watchedOrder},
      x.event n = .patrol time lightOrder watchedOrder →
        passTime (x.event n) = some time.toNat ∧ ¬ (x.state n).Frees (x.event n) number := by
    intro time lightOrder watchedOrder hevent
    rw [hevent]
    refine ⟨rfl, ?_⟩
    rintro ⟨_, _, _, _, _, _, he, -⟩
    exact nomatch he
  have hcalled : ∀ t, (¬ ∃ time lightOrder watchedOrder,
      x.event n = .patrol time lightOrder watchedOrder) →
      (∀ time lightOrder watchedOrder, x.event n ≠ .patrol time lightOrder watchedOrder) ∧
        ∀ time ∈ passTime (x.event n), time ≤ t := by
    intro t hcall
    refine ⟨fun _ _ _ he => hcall ⟨_, _, _, he⟩, fun time htime => ?_⟩
    obtain ⟨time', lightOrder, watchedOrder, he, -⟩ := exists_of_passTime htime
    exact absurd ⟨time', lightOrder, watchedOrder, he⟩ hcall
  cases h with
  | reported j time k time' hgone hj hk hkn =>
      exact .reported j time k time' (gone_succ hsynced hreplace hn hlt hgone) hj hk
        (hkn.trans (Nat.lt_succ_self n))
  | freed m hgone him hmn hfrees =>
      exact .freed m (gone_succ hsynced hreplace hn hlt hgone) him (hmn.trans (Nat.lt_succ_self n))
        hfrees
  | waiting alloc hrecord hstate hdeadline hentry hunfreed hnone =>
      by_cases hcall : ∃ time lightOrder watchedOrder,
          x.event n = .patrol time lightOrder watchedOrder
      · obtain ⟨time, lightOrder, watchedOrder, hevent⟩ := hcall
        have hstep := x.steps n hn
        rw [hevent] at hstep
        obtain ⟨hexpired, hlater⟩ := expired_iff htimes hn hevent hdeadline
        obtain ⟨hpass, hnotFreed⟩ := hpassed hevent
        have hunfreed' := hunfreed.succ hnotFreed
        by_cases hpast : watchEnd env t < time.toNat
        · -- the first pass past the time of the block
          refine .suspected { alloc with
              state := .suspicious
              deadline := time.toUInt32 + env.closelyWatchedAllocationsAccessMaxInterval }
            n time.toNat (hrecord.patrolled hstep ?_) rfl hlater hentry hunfreed'
            ⟨hin, hpass, hpast, hnone⟩ (Nat.lt_succ_self n) (nonePast_next n _)
          simp [watchedAfter, hexpired.mpr hpast, hstate]
        · refine .waiting alloc (hrecord.patrolled hstep ?_) hstate hdeadline hentry hunfreed'
            (hnone.succ fun time' htime' => ?_)
          · simp [watchedAfter, mt hexpired.mp hpast]
          · rw [hpass] at htime'
            exact Option.some.inj htime' ▸ Nat.not_lt.mp hpast
      · obtain ⟨hcall', hnoTime⟩ := hcalled _ hcall
        cases called_at hsynced hreplace hn hlt hrecord hcall' with
        | inl hfreed => exact .freed n hfreed.2 hin (Nat.lt_succ_self n) hfreed.1
        | inr hkept =>
            obtain ⟨hfrees, alloc', hrecord', hcarries⟩ := hkept
            exact .waiting alloc' hrecord' (hcarries.state.trans hstate)
              (hcarries.deadline ▸ hdeadline) (hcarries.watchedStackTraceInfo.trans hentry)
              (hunfreed.succ hfrees) (hnone.succ hnoTime)
  | suspected alloc j time hrecord hstate hdeadline hentry hunfreed hj hjn hnone =>
      by_cases hcall : ∃ time lightOrder watchedOrder,
          x.event n = .patrol time lightOrder watchedOrder
      · obtain ⟨time', lightOrder, watchedOrder, hevent⟩ := hcall
        have hstep := x.steps n hn
        rw [hevent] at hstep
        obtain ⟨hexpired, -⟩ := expired_iff htimes hn hevent hdeadline
        obtain ⟨hpass, hnotFreed⟩ := hpassed hevent
        by_cases hpast : accessEnd env time < time'.toNat
        · -- the first pass past the new deadline reports the block
          refine .reported j time n time'.toNat (gone_of_watchedAfter hsynced hreplace hn hlt hrecord
            hevent ?_) hj ⟨hjn, hpass, hpast, hnone⟩ (Nat.lt_succ_self n)
          simp [watchedAfter, hexpired.mpr hpast, hstate]
        · refine .suspected alloc j time (hrecord.patrolled hstep ?_) hstate hdeadline hentry
            (hunfreed.succ hnotFreed) hj (hjn.trans (Nat.lt_succ_self n))
            (hnone.succ fun time'' htime'' => ?_)
          · simp [watchedAfter, mt hexpired.mp hpast]
          · rw [hpass] at htime''
            exact Option.some.inj htime'' ▸ Nat.not_lt.mp hpast
      · obtain ⟨hcall', hnoTime⟩ := hcalled _ hcall
        cases called_at hsynced hreplace hn hlt hrecord hcall' with
        | inl hfreed =>
            exact .freed n hfreed.2 hin (Nat.lt_succ_self n) hfreed.1
        | inr hkept =>
            obtain ⟨hfrees, alloc', hrecord', hcarries⟩ := hkept
            exact .suspected alloc' j time hrecord' (hcarries.state.trans hstate)
              (hcarries.deadline ▸ hdeadline) (hcarries.watchedStackTraceInfo.trans hentry)
              (hunfreed.succ hfrees) hj (hjn.trans (Nat.lt_succ_self n))
              (hnone.succ hnoTime)

end Run

end AllocCounter.System
