import AllocCounter.Conservation

/-!
# Soundness of a leak declaration

A closely watched record is tied to the number of the block it is about, through
reallocations and the reuse of addresses. Its history is an invariant over the
indices of an execution: when the block was allocated, that it has been held
since, when its record became suspicious, and that no leak was reported of it.
-/
namespace AllocCounter.System

open AllocationTable

variable {env : Environment} {s s' : System}

/-- Held blocks have different numbers, all below the next one. -/
structure Numbered (held : Blocks Block) (next : ℕ) : Prop where
  lt : ∀ a b, held a = some b → b.number < next
  inj : ∀ a b a' b', held a = some b → held a' = some b' → b.number = b'.number → a = a'

theorem Numbered.release {held : Blocks Block} {next : ℕ} (h : Numbered held next)
    (memory : Address) : Numbered (Blocks.release memory held) next :=
  ⟨fun a b hb => h.lt a b (Blocks.of_release hb), fun a b a' b' hb hb' =>
    h.inj a b a' b' (Blocks.of_release hb) (Blocks.of_release hb')⟩

/-- A block put at an address, whose number no other held block has. -/
theorem Numbered.obtain {held : Blocks Block} {next : ℕ} (h : Numbered held next)
    {b : Block} (hnew : ∀ a b', held a = some b' → b'.number ≠ b.number) (memory : Address)
    {next' : ℕ} (hlt : b.number < next') (hle : next ≤ next') :
    Numbered (Blocks.obtain memory b held) next' := by
  by_cases hnull : memory = 0
  · rw [hnull, Blocks.obtain_null]
    exact ⟨fun a b' hb' => (h.lt a b' hb').trans_le hle, h.inj⟩
  refine ⟨fun a b' hb' => ?_, fun a b₁ a' b₂ h₁ h₂ heq => ?_⟩
  · cases Blocks.eq_or_of_obtain hb' with
    | inl heq => rwa [heq]
    | inr hold => exact (h.lt a b' hold).trans_le hle
  · rw [Blocks.obtain_apply hnull] at h₁ h₂
    split_ifs at h₁ h₂ with ha ha' ha'
    · exact ha.trans ha'.symm
    · rw [← Option.some.inj h₁] at heq
      exact absurd heq.symm (hnew a' b₂ h₂)
    · rw [← Option.some.inj h₂] at heq
      exact absurd heq (hnew a b₁ h₁)
    · exact h.inj a b₁ a' b₂ h₁ h₂ heq

/-- A new block gets the next number. -/
theorem Numbered.obtain_next {held : Blocks Block} {next : ℕ} (h : Numbered held next)
    (memory : Address) (size : ℕ) (internal : Bool) :
    Numbered (Blocks.obtain memory ⟨next, size, internal⟩ held) (next + 1) :=
  h.obtain (fun a b hb => (h.lt a b hb).ne) memory (Nat.lt_succ_self next) (Nat.le_succ next)

/-- A block that moves keeps its number. -/
theorem Numbered.move {held : Blocks Block} {next : ℕ} (h : Numbered held next)
    {oldMemory : Address} {b b' : Block} (hb : held oldMemory = some b)
    (hnumber : b'.number = b.number) (newMemory : Address) :
    Numbered (Blocks.obtain newMemory b' (Blocks.release oldMemory held)) next := by
  refine (h.release oldMemory).obtain (fun a c hc heq => ?_) newMemory
    (hnumber ▸ h.lt _ b hb) le_rfl
  rw [Blocks.release_apply] at hc
  split_ifs at hc with hne
  exact hne (h.inj a c oldMemory b hc hb (heq.trans hnumber))

theorem numbered_step (h : Numbered s.held s.nextBlock) {e : Event} (hstep : s.Step env e s') :
    Numbered s'.held s'.nextBlock ∧ s.nextBlock ≤ s'.nextBlock := by
  cases e with
  | setWatchState w =>
      have hs' := (Option.some.inj hstep.2).symm
      subst hs'
      exact ⟨h, le_rfl⟩
  | allocate c r answer capacity =>
      obtain ⟨-, -, effects, t', -, rfl⟩ := step_allocate hstep
      exact ⟨h.obtain_next answer _ _, Nat.le_succ _⟩
  | reallocate c oldMemory newRequestedSize answer capacity =>
      obtain ⟨-, -, b, o, hb, -, -, rfl⟩ := step_reallocate hstep
      refine ⟨?_, le_rfl⟩
      dsimp only
      split_ifs
      · exact h
      · refine h.move hb ?_ o.memory
        rfl
  | free c memory released answer capacity =>
      obtain ⟨-, -, -, effects, t', -, rfl⟩ := step_free hstep
      refine ⟨?_, Nat.le_succ _⟩
      dsimp only
      split_ifs
      · exact ⟨fun a b hb => (h.lt a b hb).trans (Nat.lt_succ_self _), h.inj⟩
      · unfold Blocks.giveBack
        split_ifs
        · exact (h.release memory).obtain_next answer _ _
        · exact ⟨fun a b hb => (h.lt a b hb).trans (Nat.lt_succ_self _), h.inj⟩
  | patrol time lightOrder watchedOrder =>
      obtain ⟨-, -, rfl⟩ := step_patrol hstep
      exact ⟨h, le_rfl⟩

theorem numbered_at (x : Execution Initial (Step env)) :
    ∀ i ≤ x.length, Numbered (x.state i).held (x.state i).nextBlock :=
  x.holds_at _ ⟨x.starts.number_lt, x.starts.number_inj⟩ fun i hi h =>
    (numbered_step h (x.steps i hi)).1

theorem nextBlock_mono (x : Execution Initial (Step env)) {i j : ℕ} (hij : i ≤ j)
    (hj : j ≤ x.length) : (x.state i).nextBlock ≤ (x.state j).nextBlock := by
  induction hij with
  | refl => exact le_rfl
  | step hij ih =>
      exact (ih (Nat.le_of_succ_le hj)).trans
        (numbered_step (numbered_at x _ (Nat.le_of_succ_le hj)) (x.steps _ hj)).2

/-- `NULL` has no closely watched record. -/
def NullFree (s : System) : Prop :=
  s.table.closelyWatchedAllocationsByAddress.lookup 0 = none

/-- Nobody ever holds `NULL`. -/
theorem held_null_step (h : s.held 0 = none) {e : Event} (hstep : s.Step env e s') :
    s'.held 0 = none := by
  have hobtain : ∀ (memory : Address) (b : Block) (held : Blocks Block), held 0 = none →
      Blocks.obtain memory b held 0 = none := by
    intro memory b held hnone
    by_cases hnull : memory = 0
    · rwa [hnull, Blocks.obtain_null]
    · rwa [Blocks.obtain_of_ne _ _ (Ne.symm hnull)]
  have hrelease : ∀ memory : Address, Blocks.release memory s.held 0 = none := by
    intro memory
    rw [Blocks.release_apply]
    split_ifs
    · rfl
    · exact h
  cases e with
  | setWatchState w =>
      have hs' := (Option.some.inj hstep.2).symm
      subst hs'
      exact h
  | allocate c r answer capacity =>
      obtain ⟨-, -, effects, t', -, rfl⟩ := step_allocate hstep
      exact hobtain _ _ _ h
  | reallocate c oldMemory newRequestedSize answer capacity =>
      obtain ⟨-, -, b, o, -, -, -, rfl⟩ := step_reallocate hstep
      dsimp only
      split_ifs
      · exact h
      · exact hobtain _ _ _ (hrelease oldMemory)
  | free c memory released answer capacity =>
      obtain ⟨-, -, -, effects, t', -, rfl⟩ := step_free hstep
      dsimp only
      split_ifs
      · exact h
      · unfold Blocks.giveBack
        split_ifs
        · exact hobtain _ _ _ (hrelease memory)
        · exact h
  | patrol time lightOrder watchedOrder =>
      obtain ⟨-, -, rfl⟩ := step_patrol hstep
      exact h

theorem ne_null_of_held (h : s.held 0 = none) {memory : Address} {b : Block}
    (hb : s.held memory = some b) : memory ≠ 0 := by
  intro hm
  rw [hm, h] at hb
  exact nomatch hb

theorem nullFree_step (hheld : s.held 0 = none) (h : s.NullFree) {e : Event}
    (hreplace : s.ReplacementSucceeds env e) (hstep : s.Step env e s') : s'.NullFree := by
  cases e with
  | setWatchState w =>
      have hs' := (Option.some.inj hstep.2).symm
      subst hs'
      exact h
  | allocate c r answer capacity =>
      obtain ⟨-, -, effects, t', hcase, rfl⟩ := step_allocate hstep
      cases hcase with
      | untracked t' call memory hsame => exact (congrArg _ hsame.watched).trans h
      | light t' hbypass hsame => exact (congrArg _ hsame.watched).trans h
      | watched t' call hcall hwatches hnull hlight hadd =>
          exact (congrArg _ hadd.watched).trans
            ((Finmap.lookup_insert_of_ne _ (Ne.symm hnull)).trans h)
  | reallocate c oldMemory newRequestedSize answer capacity =>
      obtain ⟨-, -, b, o, hb, -, hcase, rfl⟩ := step_reallocate hstep
      have hold := ne_null_of_held hheld hb
      cases hcase with
      | untracked t' hsame => exact (congrArg _ hsame.watched).trans h
      | light t' alloc hbypass hrecord hsame => exact (congrArg _ hsame.watched).trans h
      | replaced t' call alloc hcall hfinds hpages hsame =>
          have hnull := hreplace ⟨alloc, hfinds, hpages⟩
          refine (congrArg _ hsame.watched).trans ((lookup_rekey _ _ _ _ _).trans ?_)
          rw [if_neg (Ne.symm hold), if_neg (Ne.symm hnull)]
          exact h
      | kept t' alloc hfinds hpages hsame =>
          exact (congrArg _ hsame.watched).trans
            ((Finmap.lookup_insert_of_ne _ (Ne.symm hold)).trans h)
  | free c memory released answer capacity =>
      obtain ⟨-, -, -, effects, t', hcase, rfl⟩ := step_free hstep
      cases hcase with
      | null => exact h
      | untracked t' hnull hsame => exact (congrArg _ hsame.watched).trans h
      | light t' hnull hsame => exact (congrArg _ hsame.watched).trans h
      | watched t' alloc hnull hfinds hlight hwatched =>
          exact (congrArg _ hwatched).trans
            ((Finmap.lookup_erase_ne (Ne.symm hnull)).trans h)
  | patrol time lightOrder watchedOrder =>
      obtain ⟨hlight, hwatched, rfl⟩ := step_patrol hstep
      have hnone : s.table.closelyWatchedAllocationsByAddress.lookup 0 = none := h
      refine ((patrol_spec env s.table time hlight hwatched).2 0).2.trans ?_
      rw [hnone]
      rfl

/-- A reported leak is a suspicious record past its deadline, at the address it
names, and the record is gone after the pass. -/
theorem leak_spec (hc : s.Consistent) (hnull : s.NullFree) {e : Event}
    (hstep : s.Step env e s') {leak : FoundLeak} (hleak : leak ∈ s.foundLeaks env e) :
    ∃ time lightOrder watchedOrder alloc, e = .patrol time lightOrder watchedOrder ∧
      s.table.closelyWatchedAllocationsByAddress.lookup leak.memory = some alloc ∧
      alloc.state = .suspicious ∧ alloc.deadline < time.toUInt32 ∧
      leak.size = alloc.requestedSize ∧ leak.stackTrace = alloc.watchedStackTraceInfo ∧
      s'.table.closelyWatchedAllocationsByAddress.lookup leak.memory = none := by
  cases e with
  | setWatchState | allocate | reallocate | free => cases hleak
  | patrol time lightOrder watchedOrder =>
      obtain ⟨hlight, hwatched, rfl⟩ := step_patrol hstep
      obtain ⟨hleaks, hafter⟩ := patrol_spec env s.table time hlight hwatched
      rw [foundLeaks, hleaks] at hleak
      obtain ⟨key, -, hkey⟩ := List.mem_filterMap.mp hleak
      cases halloc : s.table.closelyWatchedAllocationsByAddress.lookup key with
      | none =>
          rw [halloc] at hkey
          cases hkey
      | some alloc =>
          rw [halloc] at hkey
          simp only [leakOf, Option.bind_some] at hkey
          split_ifs at hkey with hexpired
          have hkeyNull : key ≠ 0 := by
            intro hzero
            rw [hzero, hnull] at halloc
            cases halloc
          have hmemory := ((hc.tracks key hkeyNull).watched alloc halloc).1
          rw [← Option.some.inj hkey]
          dsimp only
          rw [hmemory]
          refine ⟨time, lightOrder, watchedOrder, alloc, rfl, halloc, hexpired.2, hexpired.1, rfl,
            rfl, ?_⟩
          rw [(hafter key).2, halloc]
          simp [watchedAfter, hexpired.1, hexpired.2]

/-- Someone holds the block. -/
def HoldsBlock (s : System) (number : ℕ) : Prop := ∃ a b, s.held a = some b ∧ b.number = number

variable (x : Execution Initial (Step env))

/-- Event `i` allocates the block, at time `t`, as a closely watched one. -/
def AllocatedWatched (i t number : ℕ) : Prop :=
  ∃ c r answer capacity, x.event i = .allocate c r answer capacity ∧ c.time.toNat = t ∧
    number = (x.state i).nextBlock ∧
    (x.state (i + 1)).held answer = some ⟨number, r.size.toNat, false⟩ ∧
    ((x.state (i + 1)).table.closelyWatchedAllocationsByAddress.lookup answer).isSome

/-- Pass `j` moves the record of the block to the suspicious state. -/
def MovedToSuspicious (j number : ℕ) : Prop :=
  (∃ time lightOrder watchedOrder, x.event j = .patrol time lightOrder watchedOrder) ∧
    ∃ a b alloc alloc', (x.state j).held a = some b ∧ b.number = number ∧
      (x.state j).table.closelyWatchedAllocationsByAddress.lookup a = some alloc ∧
      alloc.state = .notYetSuspicious ∧
      (x.state (j + 1)).table.closelyWatchedAllocationsByAddress.lookup a = some alloc' ∧
      alloc'.state = .suspicious

/-- The blocks that event `k` reports, in the order of the report. -/
def reported (k : ℕ) : List ℕ :=
  ((x.state k).foundLeaks env (x.event k)).filterMap fun leak =>
    ((x.state k).held leak.memory).map Block.number

/-- What the state and the deadline of a record say about the block, allocated
by event `i` at time `t`. -/
def Expires (n i t number : ℕ) (alloc : CloselyWatchedAllocation) : Prop :=
  match alloc.state with
  | .notYetSuspicious => t + env.timeForAllocationToBecomeSuspicious.toNat ≤ alloc.deadline.toNat
  | .suspicious =>
      t + env.timeForAllocationToBecomeSuspicious.toNat +
          env.closelyWatchedAllocationsAccessMaxInterval.toNat + 1 ≤ alloc.deadline.toNat ∧
        ∃ j, i < j ∧ j < n ∧ MovedToSuspicious x j number

structure History (n i t number : ℕ) (alloc : CloselyWatchedAllocation) : Prop where
  before : i < n
  allocated : AllocatedWatched x i t number
  held : ∀ m, i < m → m ≤ n → (x.state m).HoldsBlock number
  expires : Expires x n i t number alloc
  unreported : ∀ m < n, number ∉ reported x m

/-- Clock readings and the deadlines computed from them fit in 32 bits. -/
def TimesFit (env : Environment) : Event → Prop
  | .allocate c _ _ _ =>
      c.time.toNat + env.timeForAllocationToBecomeSuspicious.toNat < 2 ^ 32
  | .patrol time _ _ =>
      time.toNat + env.closelyWatchedAllocationsAccessMaxInterval.toNat < 2 ^ 32
  | _ => True

def SizesFit : Event → Prop
  | .allocate _ r _ _ => r.size.toNat < 2 ^ 32
  | .reallocate _ _ newRequestedSize _ _ => newRequestedSize.toNat < 2 ^ 32
  | _ => True

instance (env : Environment) : (e : Event) → Decidable (TimesFit env e)
  | .allocate _ _ _ _ | .patrol _ _ _ => inferInstanceAs (Decidable (_ < _))
  | .setWatchState _ | .reallocate _ _ _ _ _ | .free _ _ _ _ _ => inferInstanceAs (Decidable True)

instance : (e : Event) → Decidable (SizesFit e)
  | .allocate _ _ _ _ | .reallocate _ _ _ _ _ => inferInstanceAs (Decidable (_ < _))
  | .setWatchState _ | .patrol _ _ _ | .free _ _ _ _ _ => inferInstanceAs (Decidable True)

theorem toUInt32_toNat {w : UInt64} (h : w.toNat < 2 ^ 32) : w.toUInt32.toNat = w.toNat := by
  rw [UInt64.toNat_toUInt32, Nat.mod_eq_of_lt h]

theorem toNat_add {v w : UInt32} (h : v.toNat + w.toNat < 2 ^ 32) :
    (v + w).toNat = v.toNat + w.toNat := by
  rw [UInt32.toNat_add, Nat.mod_eq_of_lt h]

theorem mem_reported {k number : ℕ} (h : number ∈ reported x k) :
    ∃ leak ∈ (x.state k).foundLeaks env (x.event k), ∃ b,
      (x.state k).held leak.memory = some b ∧ b.number = number := by
  obtain ⟨leak, hleak, hnumber⟩ := List.mem_filterMap.mp h
  obtain ⟨b, hb, heq⟩ := Option.map_eq_some_iff.mp hnumber
  exact ⟨leak, hleak, b, hb, heq⟩

theorem reported_lt {k number : ℕ} (hk : k ≤ x.length) (h : number ∈ reported x k) :
    number < (x.state k).nextBlock := by
  obtain ⟨leak, -, b, hb, heq⟩ := mem_reported x h
  exact heq ▸ (numbered_at x k hk).lt _ b hb

theorem Expires.carry {n i t number : ℕ} {alloc alloc' : CloselyWatchedAllocation}
    (h : Expires x n i t number alloc) (hstate : alloc'.state = alloc.state)
    (hdeadline : alloc'.deadline = alloc.deadline) : Expires x (n + 1) i t number alloc' := by
  unfold Expires at h ⊢
  rw [hstate, hdeadline]
  cases hcase : alloc.state with
  | notYetSuspicious =>
      rw [hcase] at h
      exact h
  | suspicious =>
      rw [hcase] at h
      obtain ⟨hlate, j, hij, hjn, hmoved⟩ := h
      exact ⟨hlate, j, hij, hjn.trans (Nat.lt_succ_self n), hmoved⟩

/-- One more step of a history that the step carries along. -/
theorem History.next {n i t number : ℕ} {alloc alloc' : CloselyWatchedAllocation}
    (h : History x n i t number alloc) (hheld : (x.state (n + 1)).HoldsBlock number)
    (hexpires : Expires x (n + 1) i t number alloc') (hnew : number ∉ reported x n) :
    History x (n + 1) i t number alloc' where
  before := h.before.trans (Nat.lt_succ_self n)
  allocated := h.allocated
  held m him hm := by
    cases Nat.le_succ_iff.mp hm with
    | inl hle => exact h.held m him hle
    | inr heq => exact heq ▸ hheld
  expires := hexpires
  unreported m hm := by
    cases Nat.lt_succ_iff_lt_or_eq.mp hm with
    | inl hlt => exact h.unreported m hlt
    | inr heq => exact heq ▸ hnew

/-- A step that reports nothing at the address of a block does not report it. -/
theorem notMem_reported {n : ℕ} (hn : n ≤ x.length) {a : Address} {b : Block}
    (hb : (x.state n).held a = some b)
    (hleaks : ∀ leak ∈ (x.state n).foundLeaks env (x.event n), leak.memory ≠ a) :
    b.number ∉ reported x n := by
  intro hmem
  obtain ⟨leak, hleak, b', hb', hnumber⟩ := mem_reported x hmem
  exact hleaks leak hleak ((numbered_at x n hn).inj _ _ _ _ hb' hb hnumber)

/-- Every closely watched record has a history. -/
def Recorded (n : ℕ) : Prop :=
  ∀ a alloc b, (x.state n).table.closelyWatchedAllocationsByAddress.lookup a = some alloc →
    (x.state n).held a = some b → ∃ i t, History x n i t b.number alloc

/-- The history of a record that a step puts into the suspicious state. -/
theorem History.suspected {n i t : ℕ} {a : Address} {b : Block} {time : UInt64}
    {lightOrder watchedOrder : List Address} {alloc alloc' : CloselyWatchedAllocation}
    (h : History x n i t b.number alloc) (hfit : TimesFit env (x.event n))
    (hevent : x.event n = .patrol time lightOrder watchedOrder)
    (halloc : (x.state n).table.closelyWatchedAllocationsByAddress.lookup a = some alloc)
    (halloc' : (x.state (n + 1)).table.closelyWatchedAllocationsByAddress.lookup a = some alloc')
    (hb : (x.state n).held a = some b) (hb' : (x.state (n + 1)).held a = some b)
    (hstate : alloc.state = .notYetSuspicious) (hexpired : alloc.deadline < time.toUInt32)
    (hstate' : alloc'.state = .suspicious)
    (hdeadline : alloc'.deadline = time.toUInt32 + env.closelyWatchedAllocationsAccessMaxInterval)
    (hnew : b.number ∉ reported x n) : History x (n + 1) i t b.number alloc' := by
  refine h.next x ⟨a, b, hb', rfl⟩ ?_ hnew
  have hexpires := h.expires
  rw [Expires, hstate] at hexpires
  rw [Expires, hstate', hdeadline]
  rw [hevent] at hfit
  dsimp only [TimesFit] at hfit
  have htime := toUInt32_toNat (w := time) (by omega)
  have hlt := UInt32.lt_iff_toNat_lt.mp hexpired
  refine ⟨?_, n, h.before, Nat.lt_succ_self n, ⟨time, lightOrder, watchedOrder, hevent⟩, a, b,
    alloc, alloc', hb, rfl, halloc, hstate, halloc', hstate'⟩
  rw [toNat_add (by omega)]
  dsimp only at hexpires
  omega

theorem recorded_step {n : ℕ} (hn : n < x.length) (hc : (x.state n).Consistent)
    (hnull : (x.state n).NullFree) (hnull' : (x.state (n + 1)).NullFree)
    (hsync : (x.state n).Synced (x.event n)) (hfit : TimesFit env (x.event n))
    (h : Recorded x n) : Recorded x (n + 1) := by
  intro a alloc' b' halloc' hb'
  have hstep := x.steps n hn
  have ha : a ≠ 0 := ne_of_lookup halloc' hnull'
  have hleaks : ∀ leak ∈ (x.state n).foundLeaks env (x.event n), leak.memory ≠ a := by
    intro leak hleak
    obtain ⟨-, -, -, alloc, -, -, -, -, -, -, hgone⟩ := leak_spec hc hnull hstep hleak
    exact (ne_of_lookup halloc' hgone).symm
  -- a reallocation reports nothing and carries state and deadline along
  have hcarried : ∀ c oldMemory newRequestedSize answer capacity alloc b,
      x.event n = .reallocate c oldMemory newRequestedSize answer capacity →
      (x.state n).table.closelyWatchedAllocationsByAddress.lookup oldMemory = some alloc →
      (x.state n).held oldMemory = some b → b'.number = b.number →
      alloc'.state = alloc.state → alloc'.deadline = alloc.deadline →
      ∃ i t, History x (n + 1) i t b'.number alloc' := by
    intro c oldMemory newRequestedSize answer capacity alloc b hevent halloc hb hnumber hstate
      hdeadline
    obtain ⟨i, t, hhistory⟩ := h oldMemory alloc b halloc hb
    rw [hnumber]
    refine ⟨i, t, hhistory.next x ⟨a, b', hb', hnumber⟩
      (hhistory.expires.carry x hstate hdeadline) ?_⟩
    simp [reported, hevent, foundLeaks]
  cases recordStep hc hsync hstep ha halloc' with
  | born c r capacity hevent hwatches hrecord hheld hheap =>
      have hnumber : b'.number = (x.state n).nextBlock := by
        rw [hb'] at hheld
        rw [Option.some.inj hheld]
      rw [hevent] at hfit
      dsimp only [TimesFit] at hfit
      refine ⟨n, c.time.toNat, Nat.lt_succ_self n, ?_, ?_, ?_, ?_⟩
      · rw [hnumber]
        exact ⟨c, r, a, capacity, hevent, rfl, rfl, hheld, by simp [halloc']⟩
      · intro m hlt hle
        have : m = n + 1 := by omega
        exact this ▸ ⟨a, b', hb', rfl⟩
      · have htime := toUInt32_toNat (w := c.time) (by omega)
        rw [hrecord, Expires]
        dsimp only
        rw [toNat_add (by omega), htime]
      · intro m hm hmem
        have hlt := reported_lt x (Nat.lt_succ_iff.mp hm |>.trans hn.le) hmem
        have hmono := nextBlock_mono x (Nat.lt_succ_iff.mp hm) hn.le
        omega
  | stays halloc hheld hheap =>
      have hb : (x.state n).held a = some b' := hheld.symm.trans hb'
      obtain ⟨i, t, hhistory⟩ := h a alloc' b' halloc hb
      exact ⟨i, t, hhistory.next x ⟨a, b', hb', rfl⟩ (hhistory.expires.carry x rfl rfl)
        (notMem_reported x hn.le hb hleaks)⟩
  | replaced c oldMemory newRequestedSize capacity alloc b hevent hfinds hpages hrecord hb hheld =>
      have hnumber : b'.number = b.number := by
        rw [hb'] at hheld
        rw [Option.some.inj hheld]
      exact hcarried c oldMemory newRequestedSize a capacity alloc b hevent hfinds.2.2 hb hnumber
        (by rw [hrecord]) (by rw [hrecord])
  | kept c newRequestedSize answer capacity alloc b hevent hfinds hpages hrecord hb hheld =>
      have hnumber : b'.number = b.number := by
        rw [hb'] at hheld
        rw [Option.some.inj hheld]
      exact hcarried c a newRequestedSize answer capacity alloc b hevent hfinds.2.2 hb hnumber
        (by rw [hrecord]) (by rw [hrecord])
  | suspected time lightOrder watchedOrder alloc hevent halloc hstate hexpired hrecord hheld =>
      have hb : (x.state n).held a = some b' := hheld.symm.trans hb'
      obtain ⟨i, t, hhistory⟩ := h a alloc b' halloc hb
      exact ⟨i, t, hhistory.suspected x hfit hevent halloc halloc' hb hb' hstate hexpired
        (by rw [hrecord]) (by rw [hrecord]) (notMem_reported x hn.le hb hleaks)⟩

/-- Sizes of the blocks that the run itself gave out. -/
theorem sizes_at (hsizes : ∀ i < x.length, SizesFit (x.event i)) :
    ∀ i ≤ x.length, ∀ a b, (x.state i).held a = some b → (x.state 0).nextBlock ≤ b.number →
      b.size < 2 ^ 32 := by
  refine x.holds_at _ ?_ fun i hi h => ?_
  · intro a b hb hnumber
    exact absurd (x.starts.number_lt a b hb) (Nat.not_lt.mpr hnumber)
  intro a b hb hnumber
  have hstep := x.steps i hi
  have hfit := hsizes i hi
  generalize x.event i = e at hstep hfit
  generalize x.state i = s at hstep h
  generalize x.state (i + 1) = s' at hstep hb
  cases e with
  | setWatchState w =>
      have hs' := (Option.some.inj hstep.2).symm
      subst hs'
      exact h a b hb hnumber
  | allocate c r answer capacity =>
      obtain ⟨-, -, effects, t', -, rfl⟩ := step_allocate hstep
      cases Blocks.eq_or_of_obtain hb with
      | inl hnew =>
          rw [hnew]
          exact hfit
      | inr hold => exact h a b hold hnumber
  | reallocate c oldMemory newRequestedSize answer capacity =>
      obtain ⟨-, -, b₀, o, -, -, -, rfl⟩ := step_reallocate hstep
      dsimp only at hb
      split_ifs at hb with hnull
      · exact h a b hb hnumber
      · cases Blocks.eq_or_of_obtain hb with
        | inl hnew =>
            rw [hnew]
            exact hfit
        | inr hold => exact h a b (Blocks.of_release hold) hnumber
  | free c memory released answer capacity =>
      obtain ⟨-, -, -, effects, t', -, rfl⟩ := step_free hstep
      dsimp only at hb
      split_ifs at hb
      · exact h a b hb hnumber
      · cases Blocks.eq_or_of_giveBack hb with
        | inl hnew =>
            rw [hnew]
            exact Nat.two_pow_pos 32
        | inr hold => exact h a b hold hnumber
  | patrol time lightOrder watchedOrder =>
      obtain ⟨-, -, rfl⟩ := step_patrol hstep
      exact h a b hb hnumber

/-- What is behind a leak that pass `k`, which reads `time`, reports: a block
that was allocated closely watched, is held since, became suspicious in an
earlier pass, and has the reported address and size. -/
def Justified (k : ℕ) (time : UInt64) (leak : FoundLeak) : Prop :=
  ∃ b i j t, i < j ∧ j < k ∧ AllocatedWatched x i t b.number ∧
    (∀ m, i < m → m ≤ k → (x.state m).HoldsBlock b.number) ∧
    t + env.timeForAllocationToBecomeSuspicious.toNat +
      env.closelyWatchedAllocationsAccessMaxInterval.toNat + 2 ≤ time.toNat ∧
    MovedToSuspicious x j b.number ∧
    (x.state k).held leak.memory = some b ∧ leak.size.toNat = b.size

section Sound

variable {x} (hway : OneWay x)
  (hreplace : ∀ i < x.length, (x.state i).ReplacementSucceeds env (x.event i))
  (htimes : ∀ i < x.length, TimesFit env (x.event i))

include hway hreplace

theorem nullFree_at : ∀ i ≤ x.length, (x.state i).NullFree := by
  refine x.holds_at _ ?_ fun i hi h => ?_
  · rw [NullFree, x.starts.table]
    rfl
  · exact nullFree_step (consistent_at x hway.synced i hi.le).null h (hreplace i hi) (x.steps i hi)

/-- No block is reported twice in one pass: the loop visits every key once. -/
theorem reported_nodup {k : ℕ} (hk : k < x.length) : (reported x k).Nodup := by
  have hc := consistent_at x hway.synced k hk.le
  have hnull := nullFree_at hway hreplace k hk.le
  have hstep := x.steps k hk
  have hinj := (numbered_at x k hk.le).inj
  unfold reported
  generalize x.event k = e at hstep
  cases e with
  | setWatchState | allocate | reallocate | free => simp [foundLeaks]
  | patrol time lightOrder watchedOrder =>
      obtain ⟨hlight, hwatched, -⟩ := step_patrol hstep
      rw [foundLeaks, (patrol_spec env _ time hlight hwatched).1, List.filterMap_filterMap]
      refine hwatched.nodup.filterMap fun key key' number hkey hkey' => ?_
      have haddress : ∀ a, number ∈ ((leakOf time.toUInt32
          ((x.state k).table.closelyWatchedAllocationsByAddress.lookup a)).bind fun leak =>
            ((x.state k).held leak.memory).map Block.number) →
          ∃ b, (x.state k).held a = some b ∧ b.number = number := by
        intro a ha
        obtain ⟨leak, hleak, hnumber⟩ := Option.bind_eq_some_iff.mp ha
        obtain ⟨b, hb, heq⟩ := Option.map_eq_some_iff.mp hnumber
        cases halloc : (x.state k).table.closelyWatchedAllocationsByAddress.lookup a with
        | none =>
            rw [halloc] at hleak
            exact nomatch hleak
        | some alloc =>
            rw [halloc] at hleak
            simp only [leakOf, Option.bind_some] at hleak
            split_ifs at hleak
            have hmemory := ((hc.tracks a (ne_of_lookup halloc hnull)).watched alloc halloc).1
            rw [← Option.some.inj hleak] at hb
            exact ⟨b, hmemory ▸ hb, heq⟩
      obtain ⟨b, hb, hnumber⟩ := haddress key hkey
      obtain ⟨b', hb', hnumber'⟩ := haddress key' hkey'
      exact hinj _ _ _ _ hb hb' (hnumber.trans hnumber'.symm)

include htimes

theorem recorded_at : ∀ i ≤ x.length, Recorded x i := by
  refine x.holds_at _ ?_ fun i hi h => ?_
  · intro a alloc b halloc
    rw [x.starts.table] at halloc
    exact nomatch halloc
  · exact recorded_step x hi (consistent_at x hway.synced i hi.le)
      (nullFree_at hway hreplace i hi.le) (nullFree_at hway hreplace (i + 1) hi)
      (hway.synced i hi) (htimes i hi) h

/-- The history behind a reported leak. -/
theorem history_of_leak {k : ℕ} (hk : k < x.length) {leak : FoundLeak}
    (hleak : leak ∈ (x.state k).foundLeaks env (x.event k)) :
    ∃ time lightOrder watchedOrder alloc b i t,
      x.event k = .patrol time lightOrder watchedOrder ∧
      (x.state k).held leak.memory = some b ∧ leak.size = alloc.requestedSize ∧
      alloc.requestedSize.toNat = b.size % 2 ^ 32 ∧ alloc.state = .suspicious ∧
      alloc.deadline < time.toUInt32 ∧ History x k i t b.number alloc := by
  have hc := consistent_at x hway.synced k hk.le
  have hnull := nullFree_at hway hreplace k hk.le
  obtain ⟨time, lightOrder, watchedOrder, alloc, hevent, halloc, hstate, hexpired, hsize, -, -⟩ :=
    leak_spec hc hnull (x.steps k hk) hleak
  have hmemory : leak.memory ≠ 0 := ne_of_lookup halloc hnull
  obtain ⟨-, b, hb, -, hrequested⟩ := (hc.tracks _ hmemory).watched alloc halloc
  obtain ⟨i, t, hhistory⟩ := recorded_at hway hreplace htimes k hk.le _ alloc b halloc hb
  exact ⟨time, lightOrder, watchedOrder, alloc, b, i, t, hevent, hb, hsize, hrequested, hstate,
    hexpired, hhistory⟩

/-- Every leak that a pass reports is justified, and every block is reported at
most once in the whole run. Nothing is assumed about the order of the clock
readings. -/
theorem leaks_sound (hsizes : ∀ i < x.length, SizesFit (x.event i)) :
    (∀ k < x.length, ∀ time lightOrder watchedOrder,
      x.event k = .patrol time lightOrder watchedOrder →
      ∀ leak ∈ (x.state k).foundLeaks env (x.event k), Justified x k time leak) ∧
    ((List.range x.length).flatMap (reported x)).Nodup := by
  constructor
  · intro k hk time lightOrder watchedOrder hevent leak hleak
    obtain ⟨time', _, _, alloc, b, i, t, hevent', hb, hsize, hrequested, hstate, hexpired,
      hhistory⟩ := history_of_leak hway hreplace htimes hk hleak
    rw [hevent, Event.patrol.injEq] at hevent'
    rw [← hevent'.1] at hexpired
    have hexpires := hhistory.expires
    rw [Expires, hstate] at hexpires
    obtain ⟨hlate, j, hij, hjk, hmoved⟩ := hexpires
    refine ⟨b, i, j, t, hij, hjk, hhistory.allocated, hhistory.held, ?_, hmoved, hb, ?_⟩
    · have hfit := htimes k hk
      rw [hevent] at hfit
      dsimp only [TimesFit] at hfit
      have htime := toUInt32_toNat (w := time) (by omega)
      have hlt := UInt32.lt_iff_toNat_lt.mp hexpired
      omega
    · obtain ⟨_, _, _, _, _, _, hnumber, _, _⟩ := hhistory.allocated
      have hmono := nextBlock_mono x (Nat.zero_le i) (hhistory.before.trans hk).le
      have hlt := sizes_at x hsizes k hk.le _ b hb (hnumber ▸ hmono)
      rw [hsize, hrequested, Nat.mod_eq_of_lt hlt]
  · rw [List.nodup_flatMap]
    constructor
    · exact fun k hk => reported_nodup hway hreplace (List.mem_range.mp hk)
    · refine List.pairwise_lt_range.imp_of_mem fun {k k'} _ hk' hlt => ?_
      intro number hnumber hnumber'
      have hk' := List.mem_range.mp hk'
      obtain ⟨leak, hleak, b, hb, heq⟩ := mem_reported x hnumber'
      obtain ⟨_, _, _, alloc, b', i, t, _, hb', _, _, _, _, hhistory⟩ :=
        history_of_leak hway hreplace htimes hk' hleak
      rw [hb, Option.some.injEq] at hb'
      exact hhistory.unreported k hlt (hb' ▸ heq ▸ hnumber)

end Sound

/-- The leak of the run is justified. -/
theorem leaks_sound_leakRun :
    Justified leakRun 7 73 ⟨⟨7, ⟨[1]⟩⟩, 0x2000, 8⟩ ∧
      ((List.range 8).flatMap (reported leakRun)).Nodup := by
  have hsound := leaks_sound oneWay_leakRun (by decide +kernel) (by decide +kernel)
    (by decide +kernel)
  exact ⟨hsound.1 7 (by decide) 73 [] [0x2000] rfl _ (by decide +kernel), hsound.2⟩

end AllocCounter.System
