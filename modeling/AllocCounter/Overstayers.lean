import AllocCounter.LeakSoundness

/-!
# Suspicious fingerprints and overstayers

A fingerprint is suspicious exactly when a pass has found a block, allocated with
it under watch, past its deadline. A light record is tied to the number of its
block: over one step the record of a held block is new, carried along or visited
by the patrol, so a block that is held never loses its record other than by
making its fingerprint suspicious, and every record has an allocation behind it.
-/
namespace AllocCounter

namespace AllocationTable

variable {env : Environment} {t : AllocationTable}

theorem mem_setInfo {w : TraceEntry} {traces : SuspiciousStackTracesTable}
    (h : t.suspiciousFingerprints.lookup w.fingerprint = some traces) (i : WatchedStackTraceInfo)
    (f : CallstackFingerprint) :
    f ∈ (t.setInfo w traces i).suspiciousFingerprints ↔ f ∈ t.suspiciousFingerprints := by
  simp only [setInfo, Finmap.mem_insert, or_iff_right_iff_imp]
  intro hf
  exact hf ▸ Finmap.mem_of_lookup_eq_some h

@[simp] theorem mem_modifyInfo (t : AllocationTable) (w : TraceEntry)
    (g : WatchedStackTraceInfo → WatchedStackTraceInfo) (f : CallstackFingerprint) :
    f ∈ (t.modifyInfo w g).suspiciousFingerprints ↔ f ∈ t.suspiciousFingerprints := by
  cases hf : t.suspiciousFingerprints.lookup w.fingerprint with
  | none => simp only [modifyInfo, hf]
  | some traces =>
      cases hs : traces.lookup w.stackTrace with
      | none => simp only [modifyInfo, hf, hs]
      | some i =>
          simp only [modifyInfo, hf, hs]
          exact mem_setInfo hf _ f

theorem mem_getOrCreate {fingerprint : CallstackFingerprint} {traces : SuspiciousStackTracesTable}
    (h : t.suspiciousFingerprints.lookup fingerprint = some traces) (trace : StackTrace)
    (f : CallstackFingerprint) :
    f ∈ (t.getOrCreate fingerprint traces trace).1.suspiciousFingerprints ↔
      f ∈ t.suspiciousFingerprints := by
  cases hs : traces.lookup trace with
  | some i => simp only [getOrCreate, hs]
  | none =>
      simp only [getOrCreate, hs]
      exact mem_setInfo (w := ⟨fingerprint, trace⟩) h _ f

/-- The allocation is given a light record. -/
def StartsLight (t : AllocationTable) (c : Caller) (fingerprint : CallstackFingerprint)
    (memory : Address) : Prop :=
  ¬ Bypasses c ∧ fingerprint ∉ t.suspiciousFingerprints ∧ memory ≠ 0

/-- The light record of a new block. -/
def lightRecord (env : Environment) (c : Caller) (size : UInt32)
    (fingerprint : CallstackFingerprint) (memory : Address) : LightAllocation where
  fingerprint := fingerprint
  memory := memory
  requestedSize := size
  deadline := (c.time + env.timeForAllocationToBecomeSuspicious.toUInt64).toUInt32

variable (env) in
/-- What an allocation does to the light records and to the suspicious set. -/
theorem instrumentedAllocate_light (t : AllocationTable) (c : Caller) (size alignment : UInt32)
    (fingerprint : CallstackFingerprint) (real : RealCall → Address) (zeroFill : ZeroFill) :
    (∀ f, f ∈ (t.instrumentedAllocate env c size alignment fingerprint real
        zeroFill).table.suspiciousFingerprints ↔ f ∈ t.suspiciousFingerprints) ∧
      (StartsLight t c fingerprint (real .preferred) →
        (t.instrumentedAllocate env c size alignment fingerprint real
            zeroFill).table.lightAllocationsByAddress =
          t.lightAllocationsByAddress.insert (real .preferred)
            (lightRecord env c size fingerprint (real .preferred))) ∧
      (¬ StartsLight t c fingerprint (real .preferred) →
        (t.instrumentedAllocate env c size alignment fingerprint real
            zeroFill).table.lightAllocationsByAddress = t.lightAllocationsByAddress) := by
  unfold instrumentedAllocate
  by_cases hbypass : Bypasses c
  · rw [if_pos hbypass]
    exact ⟨fun _ => Iff.rfl, fun hstarts => absurd hbypass hstarts.1, fun _ => rfl⟩
  rw [if_neg hbypass]
  cases hfp : t.suspiciousFingerprints.lookup fingerprint with
  | none =>
      dsimp only
      split_ifs with hnull
      · exact ⟨fun _ => Iff.rfl, fun hstarts => absurd hnull hstarts.2.2, fun _ => rfl⟩
      · exact ⟨fun _ => Iff.rfl, fun _ => rfl,
          fun hnot => absurd ⟨hbypass, Finmap.lookup_eq_none.mp hfp, hnull⟩ hnot⟩
  | some traces =>
      have hmem : fingerprint ∈ t.suspiciousFingerprints := Finmap.mem_of_lookup_eq_some hfp
      dsimp only
      generalize hstats : ({ t with stats := _ } : AllocationTable) = t₁
      have hfp₁ : t₁.suspiciousFingerprints.lookup fingerprint = some traces := hstats ▸ hfp
      have hset : t₁.suspiciousFingerprints = t.suspiciousFingerprints := hstats ▸ rfl
      have hlight : t₁.lightAllocationsByAddress = t.lightAllocationsByAddress := hstats ▸ rfl
      have ⟨_, hcreateLight, _⟩ := getOrCreate_spec t₁ c.stackTrace hfp₁
      have hcreate := mem_getOrCreate hfp₁ c.stackTrace
      generalize t₁.getOrCreate fingerprint traces c.stackTrace = p at *
      obtain ⟨t₂, i⟩ := p
      rw [hset] at hcreate
      refine ⟨fun f => ?_, fun hstarts => absurd hmem hstarts.2.1, fun _ => ?_⟩
      · split_ifs
        · exact hcreate f
        · exact (mem_modifyInfo _ _ _ f).trans (hcreate f)
        · exact (mem_modifyInfo _ _ _ f).trans (hcreate f)
      · split_ifs
        · exact hcreateLight.trans hlight
        · exact (modifyInfo_light _ _ _).trans (hcreateLight.trans hlight)
        · exact (modifyInfo_light _ _ _).trans (hcreateLight.trans hlight)

theorem mem_instrumentedReallocate {c : Caller} {oldMemory : Address} {newRequestedSize : UInt64}
    {real : RealCall → Address} {o : Outcome}
    (h : t.instrumentedReallocate env c oldMemory newRequestedSize real = some o) :
    o.table.suspiciousFingerprints = t.suspiciousFingerprints := by
  unfold instrumentedReallocate at h
  by_cases hbypass : Bypasses c
  · rw [if_pos hbypass] at h
    rw [← Option.some.inj h]
  rw [if_neg hbypass] at h
  dsimp only at h
  cases hlight : t.lightAllocationsByAddress.lookup oldMemory with
  | some alloc =>
      rw [hlight] at h
      rw [← Option.some.inj h]
  | none =>
      rw [hlight] at h
      cases hwatched : t.closelyWatchedAllocationsByAddress.lookup oldMemory with
      | none =>
          rw [hwatched] at h
          rw [← Option.some.inj h]
      | some alloc =>
          rw [hwatched] at h
          dsimp only at h
          split_ifs at h
          · rw [← Option.some.inj h]
          · rw [← Option.some.inj h]

theorem mem_instrumentedFree (t : AllocationTable) (c : Caller) (memory : Address)
    (real : RealCall → Address) (f : CallstackFingerprint) :
    f ∈ (t.instrumentedFree c memory real).1.suspiciousFingerprints ↔
      f ∈ t.suspiciousFingerprints := by
  unfold instrumentedFree
  split_ifs
  · rfl
  · rfl
  · dsimp only
    cases t.lightAllocationsByAddress.lookup memory with
    | some alloc => rfl
    | none =>
        cases t.closelyWatchedAllocationsByAddress.lookup memory with
        | none => rfl
        | some alloc => exact mem_modifyInfo _ _ _ f

theorem mem_patrolLight (now : UInt32) (t : AllocationTable) (key : Address)
    (f : CallstackFingerprint) :
    f ∈ (t.patrolLight now key).suspiciousFingerprints ↔ f ∈ t.suspiciousFingerprints ∨
      ∃ alloc, t.lightAllocationsByAddress.lookup key = some alloc ∧ alloc.fingerprint = f ∧
        alloc.deadline < now := by
  unfold patrolLight
  cases hkey : t.lightAllocationsByAddress.lookup key with
  | none => simp
  | some alloc =>
      dsimp only
      split_ifs with hdeadline
      · simp only [addSuspiciousFingerprint, UnorderedMap.insertNew]
        split_ifs with hmem
        · constructor
          · exact .inl
          · rintro (hold | ⟨_, heq, hf, -⟩)
            · exact hold
            · exact hf ▸ Option.some.inj heq ▸ hmem
        · rw [Finmap.mem_insert]
          constructor
          · rintro (hnew | hold)
            · exact .inr ⟨alloc, rfl, hnew.symm, hdeadline⟩
            · exact .inl hold
          · rintro (hold | ⟨_, heq, hf, -⟩)
            · exact .inr hold
            · exact .inl (hf ▸ Option.some.inj heq ▸ rfl)
      · constructor
        · exact .inl
        · rintro (hold | ⟨_, heq, -, hlate⟩)
          · exact hold
          · exact absurd (Option.some.inj heq ▸ hlate) hdeadline

/-- The first loop adds the fingerprints of the records past their deadline. -/
theorem mem_foldl_patrolLight (now : UInt32) {order : List Address} (horder : order.Nodup)
    (t : AllocationTable) (f : CallstackFingerprint) :
    f ∈ (order.foldl (patrolLight now) t).suspiciousFingerprints ↔
      f ∈ t.suspiciousFingerprints ∨ ∃ key ∈ order, ∃ alloc,
        t.lightAllocationsByAddress.lookup key = some alloc ∧ alloc.fingerprint = f ∧
          alloc.deadline < now := by
  induction order generalizing t with
  | nil => simp
  | cons key rest ih =>
      have ⟨hkey, hrest⟩ := List.nodup_cons.mp horder
      -- the visit of `key` leaves the records of the other keys
      have hkeep : ∀ a ∈ rest, (t.patrolLight now key).lightAllocationsByAddress.lookup a =
          t.lightAllocationsByAddress.lookup a := by
        intro a ha
        have hne : a ≠ key := fun heq => hkey (heq ▸ ha)
        rw [(patrolLight_spec now t key).2, if_neg hne]
      rw [List.foldl_cons, ih hrest, mem_patrolLight, or_assoc]
      refine or_congr_right ?_
      simp only [List.exists_mem_cons_iff]
      refine or_congr_right (exists_congr fun a => and_congr_right fun ha => ?_)
      rw [hkeep a ha]

/-- Marking a fingerprint again keeps the traces recorded under it. -/
theorem lookup_foldl_patrolLight (now : UInt32) (order : List Address) (t : AllocationTable)
    {f : CallstackFingerprint} {traces : SuspiciousStackTracesTable}
    (h : t.suspiciousFingerprints.lookup f = some traces) :
    (order.foldl (patrolLight now) t).suspiciousFingerprints.lookup f = some traces := by
  induction order generalizing t with
  | nil => exact h
  | cons key rest ih =>
      refine ih _ ?_
      unfold patrolLight
      cases t.lightAllocationsByAddress.lookup key with
      | none => exact h
      | some alloc =>
          dsimp only
          split_ifs
          · simp only [addSuspiciousFingerprint, UnorderedMap.insertNew]
            split_ifs with hmem
            · exact h
            · rwa [Finmap.lookup_insert_of_ne]
              intro heq
              exact hmem (heq ▸ Finmap.mem_of_lookup_eq_some h)
          · exact h

theorem mem_foldl_patrolWatched (now : UInt32) (order : List Address)
    (s : AllocationTable × List FoundLeak) (f : CallstackFingerprint) :
    f ∈ (order.foldl (patrolWatched env now) s).1.suspiciousFingerprints ↔
      f ∈ s.1.suspiciousFingerprints := by
  induction order generalizing s with
  | nil => rfl
  | cons key rest ih =>
      rw [List.foldl_cons, ih]
      unfold patrolWatched
      dsimp only
      cases s.1.closelyWatchedAllocationsByAddress.lookup key with
      | none => rfl
      | some alloc =>
          dsimp only
          split_ifs
          · cases alloc.state with
            | notYetSuspicious => rfl
            | suspicious => exact mem_modifyInfo _ _ _ f
          · rfl

end AllocationTable

namespace System

open AllocationTable

variable {env : Environment} {s s' : System}

/-- The call reaches the real reallocator. -/
def CallsReallocator (s : System) (c : Caller) (oldMemory : Address) : Prop :=
  Bypasses c ∨ s.table.lightAllocationsByAddress.lookup oldMemory ≠ none ∨
    s.table.closelyWatchedAllocationsByAddress.lookup oldMemory = none

instance (s : System) (c : Caller) (oldMemory : Address) :
    Decidable (s.CallsReallocator c oldMemory) := inferInstanceAs (Decidable (_ ∨ _ ∨ _))

/-- The real reallocator does not fail; a `reallocarray` of size zero frees. -/
def ReallocatorSucceeds (s : System) : Event → Prop
  | .reallocate c oldMemory _ answer _ => s.CallsReallocator c oldMemory → answer ≠ 0
  | .free _ memory released _ _ => memory ≠ 0 → released = true
  | _ => True

instance (s : System) : (e : Event) → Decidable (s.ReallocatorSucceeds e)
  | .reallocate _ _ _ _ _ | .free _ _ _ _ _ => inferInstanceAs (Decidable (_ → _))
  | .setWatchState _ | .allocate _ _ _ _ | .patrol _ _ _ => inferInstanceAs (Decidable True)

/-- A reallocation that finds a light record does not fail. -/
def LightReallocationSucceeds (s : System) : Event → Prop
  | .reallocate c oldMemory _ answer _ =>
      ¬ Bypasses c → s.table.lightAllocationsByAddress.lookup oldMemory ≠ none → answer ≠ 0
  | _ => True

instance (s : System) : (e : Event) → Decidable (s.LightReallocationSucceeds e)
  | .reallocate _ _ _ _ _ => inferInstanceAs (Decidable (_ → _ → _))
  | .setWatchState _ | .allocate _ _ _ _ | .free _ _ _ _ _ | .patrol _ _ _ =>
      inferInstanceAs (Decidable True)

theorem ReallocatorSucceeds.light {e : Event} (h : s.ReallocatorSucceeds e) :
    s.LightReallocationSucceeds e := by
  cases e with
  | reallocate c oldMemory newRequestedSize answer capacity =>
      exact fun _ hlight => h (.inr (.inl hlight))
  | setWatchState | allocate | free | patrol => exact trivial

/-- What of a light record a reallocation keeps. -/
def mark (r : LightAllocation) : CallstackFingerprint × UInt32 := ⟨r.fingerprint, r.deadline⟩

/-- Where a block held after a step comes from, and its light record: a new block
without a record or with a new one, a block that was held and whose record is
carried along, or one that the patrol visits. -/
inductive BlockStep (env : Environment) (s : System) (e : Event) (s' : System) (a' : Address)
    (b' : Block) : Prop
  | unrecorded : b'.number = s.nextBlock → s'.table.lightAllocationsByAddress.lookup a' = none →
      (∀ c r answer capacity, e = .allocate c r answer capacity →
        ¬ StartsLight s.table c r.fingerprint answer) → BlockStep env s e s' a' b'
  | started (c : Caller) (r : Request) (capacity : ℕ) : e = .allocate c r a' capacity →
      StartsLight s.table c r.fingerprint a' → b'.number = s.nextBlock →
      s'.table.lightAllocationsByAddress.lookup a' =
        some (lightRecord env c r.size.toUInt32 r.fingerprint a') → BlockStep env s e s' a' b'
  | carried (a : Address) (b : Block) : s.held a = some b → b.number = b'.number →
      (s'.table.lightAllocationsByAddress.lookup a').map mark =
        (s.table.lightAllocationsByAddress.lookup a).map mark → BlockStep env s e s' a' b'
  | patrolled (time : UInt64) (lightOrder watchedOrder : List Address) :
      e = .patrol time lightOrder watchedOrder → s.held a' = some b' →
      s'.table.lightAllocationsByAddress.lookup a' =
        lightAfter time.toUInt32 (s.table.lightAllocationsByAddress.lookup a') →
      BlockStep env s e s' a' b'

theorem blockStep_allocate (hc : s.Consistent) {c : Caller} {r : Request} {answer : Address}
    {capacity : ℕ} (hstep : s.Step env (.allocate c r answer capacity) s') {a' : Address}
    {b' : Block} (hb' : s'.held a' = some b') :
    BlockStep env s (.allocate c r answer capacity) s' a' b' := by
  have htable : s'.table = (s.table.instrumentedAllocate env c r.size.toUInt32
      r.alignment.toUInt32 r.fingerprint (fun _ => answer) r.zeroFill).table := by
    rw [← Option.some.inj hstep.2]
  obtain ⟨-, hfresh, effects, t', -, rfl⟩ := step_allocate hstep
  dsimp only at htable hb'
  subst htable
  have ⟨_, hstarted, hkept⟩ := instrumentedAllocate_light env s.table c r.size.toUInt32
    r.alignment.toUInt32 r.fingerprint (fun _ => answer) r.zeroFill
  by_cases hnull : answer = 0
  · have hnot : ¬ StartsLight s.table c r.fingerprint answer := fun hstarts => hstarts.2.2 hnull
    rw [hnull, Blocks.obtain_null] at hb'
    exact .carried a' b' hb' rfl (by rw [hkept hnot])
  by_cases ha : a' = answer
  · subst ha
    rw [Blocks.obtain_self hnull] at hb'
    have hnumber : b'.number = s.nextBlock := by rw [← Option.some.inj hb']
    by_cases hstarts : StartsLight s.table c r.fingerprint a'
    · refine .started c r capacity rfl hstarts hnumber ?_
      rw [hstarted hstarts, Finmap.lookup_insert]
    · refine .unrecorded hnumber ?_ ?_
      · rw [hkept hstarts]
        exact (hc.untracked_of_fresh hnull hfresh).1
      · intro c r answer capacity heq
        cases heq
        exact hstarts
  · rw [Blocks.obtain_of_ne _ _ ha] at hb'
    refine .carried a' b' hb' rfl ?_
    by_cases hstarts : StartsLight s.table c r.fingerprint answer
    · rw [hstarted hstarts, Finmap.lookup_insert_of_ne _ ha]
    · rw [hkept hstarts]

/-- A light record starts with its block. -/
theorem started_spec {c : Caller} {r : Request} {answer : Address} {capacity : ℕ}
    (hstep : s.Step env (.allocate c r answer capacity) s')
    (hstarts : StartsLight s.table c r.fingerprint answer) :
    (∃ b, s'.held answer = some b ∧ b.number = s.nextBlock) ∧
      s'.table.lightAllocationsByAddress.lookup answer =
        some (lightRecord env c r.size.toUInt32 r.fingerprint answer) := by
  have htable : s'.table = (s.table.instrumentedAllocate env c r.size.toUInt32
      r.alignment.toUInt32 r.fingerprint (fun _ => answer) r.zeroFill).table := by
    rw [← Option.some.inj hstep.2]
  obtain ⟨-, -, effects, t', -, rfl⟩ := step_allocate hstep
  constructor
  · exact ⟨_, Blocks.obtain_self hstarts.2.2 _ _, rfl⟩
  · rw [htable, (instrumentedAllocate_light env s.table c _ _ _ (fun _ => answer) _).2.1 hstarts,
      Finmap.lookup_insert]

/-- A block that is moved, or stays where it is, and its light record. -/
theorem blockStep_moved {e : Event} {oldMemory new a' : Address} {b b' : Block} {size : ℕ}
    (hnull : new ≠ 0) (hb : s.held oldMemory = some b)
    (hb' : Blocks.obtain new { b with size := size } (Blocks.release oldMemory s.held) a' =
      some b')
    (hnew : (s'.table.lightAllocationsByAddress.lookup new).map mark =
      (s.table.lightAllocationsByAddress.lookup oldMemory).map mark)
    (hother : a' ≠ new → a' ≠ oldMemory → s'.table.lightAllocationsByAddress.lookup a' =
      s.table.lightAllocationsByAddress.lookup a') : BlockStep env s e s' a' b' := by
  rw [Blocks.move_apply hnull] at hb'
  split_ifs at hb' with ha hold
  · refine .carried oldMemory b hb ?_ (ha ▸ hnew)
    rw [← Option.some.inj hb']
  · exact .carried a' b' hb' rfl (congrArg _ (hother ha hold))

theorem blockStep_reallocate (hc : s.Consistent) {c : Caller} {oldMemory answer : Address}
    {newRequestedSize : UInt64} {capacity : ℕ}
    (hsync : s.Synced (.reallocate c oldMemory newRequestedSize answer capacity))
    (hsucceeds : s.ReallocatorSucceeds (.reallocate c oldMemory newRequestedSize answer capacity))
    (hstep : s.Step env (.reallocate c oldMemory newRequestedSize answer capacity) s')
    {a' : Address} {b' : Block} (hb' : s'.held a' = some b') :
    BlockStep env s (.reallocate c oldMemory newRequestedSize answer capacity) s' a' b' := by
  obtain ⟨hwatch, hanswer, b, o, hb, hinternal, hcase, rfl⟩ := step_reallocate hstep
  have hold := hc.ne_null hb
  cases hcase with
  | untracked t' hsame hlight hrecord =>
      have hnull : answer ≠ 0 := hsucceeds (hrecord.imp_right fun hnone => .inr hnone.2)
      have hnone := hc.untracked_of_bypass hwatch ⟨b, hb, hinternal⟩ hsync hrecord
      have hnew : s.table.lightAllocationsByAddress.lookup answer = none := by
        cases hc.moves hanswer hnull with
        | inl hkept => exact hkept ▸ hnone.1
        | inr hfresh => exact hfresh.1
      dsimp only at hb'
      rw [if_neg hnull] at hb'
      refine blockStep_moved hnull hb hb' ?_ fun _ _ => congrArg _ hlight
      dsimp only
      rw [hlight, hnew, hnone.1]
  | light t' alloc hbypass hrecord hsame hlight =>
      have hnull : answer ≠ 0 := hsucceeds (.inr (.inl (by simp [hrecord])))
      dsimp only at hb'
      rw [if_neg hnull] at hb'
      refine blockStep_moved hnull hb hb' ?_ fun hne hne' => ?_
      · dsimp only
        rw [hlight, hrecord]
        split_ifs with hmoved
        · have hfresh := (hc.moves hanswer hnull).resolve_left hmoved
          rw [lookup_rekey, if_neg hmoved, if_pos rfl, hfresh.1]
          rfl
        · rw [not_not.mp hmoved, Finmap.lookup_insert]
          rfl
      · dsimp only
        rw [hlight]
        split_ifs
        · rw [lookup_rekey, if_neg hne', if_neg hne]
        · exact Finmap.lookup_insert_of_ne _ hne'
  | replaced t' call alloc hcall hfinds hpages hsame hlight =>
      dsimp only at hb'
      split_ifs at hb' with hnull
      · exact .carried a' b' hb' rfl (congrArg _ (congrArg _ hlight))
      · have hfresh := hc.untracked_of_fresh hnull
          (hanswer.resolve_right fun hkept => hkept.2 ⟨alloc, hfinds, hpages⟩)
        refine blockStep_moved hnull hb hb' ?_ fun _ _ => congrArg _ hlight
        dsimp only
        rw [hlight, hfresh.1, hfinds.2.1]
  | kept t' alloc hfinds hpages hsame hlight =>
      dsimp only at hb'
      rw [if_neg hold] at hb'
      exact blockStep_moved hold hb hb' (congrArg _ (congrArg _ hlight)) fun _ _ =>
        congrArg _ hlight

theorem blockStep_free (hc : s.Consistent) {c : Caller} {memory answer : Address} {released : Bool}
    {capacity : ℕ} (hsync : s.Synced (.free c memory released answer capacity))
    (hsucceeds : s.ReallocatorSucceeds (.free c memory released answer capacity))
    (hstep : s.Step env (.free c memory released answer capacity) s') {a' : Address} {b' : Block}
    (hb' : s'.held a' = some b') :
    BlockStep env s (.free c memory released answer capacity) s' a' b' := by
  obtain ⟨hwatch, hholds, hanswer, effects, t', hcase, rfl⟩ := step_free hstep
  by_cases hmemory : memory = 0
  · cases hcase with
    | null =>
        dsimp only at hb'
        rw [if_pos hmemory] at hb'
        exact .carried a' b' hb' rfl rfl
    | untracked t' hnot | light t' hnot | watched t' alloc hnot => exact absurd hmemory hnot
  replace hholds := hholds.resolve_left hmemory
  dsimp only at hb'
  rw [if_neg hmemory, hsucceeds hmemory, Blocks.giveBack, if_pos rfl] at hb'
  -- the freed address has no light record left, the others keep theirs
  have hfreed := (hc.untracked_of_freed hmemory hwatch hholds hsync hcase).1
  have hother : ∀ a, a ≠ memory → t'.lightAllocationsByAddress.lookup a =
      s.table.lightAllocationsByAddress.lookup a := by
    intro a ha
    cases hcase with
    | null hnull => exact absurd hnull hmemory
    | untracked t' hnot hsame hlight => rw [hlight]
    | light t' hnot hsame hbypass hrecord hlight => rw [hlight, Finmap.lookup_erase_ne ha]
    | watched t' alloc hnot hfinds hlight => rw [hlight]
  by_cases hnull : answer = 0
  · rw [hnull, Blocks.obtain_null, Blocks.release_apply] at hb'
    split_ifs at hb' with ha
    exact .carried a' b' hb' rfl (congrArg _ (hother a' ha))
  rw [Blocks.move_apply hnull] at hb'
  split_ifs at hb' with hnew ha
  · refine .unrecorded (by rw [← Option.some.inj hb']) ?_ fun _ _ _ _ heq => nomatch heq
    by_cases hsame : answer = memory
    · exact (hnew.trans hsame) ▸ hfreed
    · dsimp only
      rw [hnew, hother answer hsame]
      exact (hc.untracked_of_fresh hnull (hanswer.resolve_right hsame)).1
  · exact .carried a' b' hb' rfl (congrArg _ (hother a' ha))

theorem blockStep (hc : s.Consistent) {e : Event} (hsync : s.Synced e)
    (hsucceeds : s.ReallocatorSucceeds e) (hstep : s.Step env e s') {a' : Address} {b' : Block}
    (hb' : s'.held a' = some b') : BlockStep env s e s' a' b' := by
  cases e with
  | setWatchState w =>
      have hs' := (Option.some.inj hstep.2).symm
      subst hs'
      exact .carried a' b' hb' rfl rfl
  | allocate => exact blockStep_allocate hc hstep hb'
  | reallocate => exact blockStep_reallocate hc hsync hsucceeds hstep hb'
  | free => exact blockStep_free hc hsync hsucceeds hstep hb'
  | patrol time lightOrder watchedOrder =>
      obtain ⟨hlight, hwatched, rfl⟩ := step_patrol hstep
      exact .patrolled time lightOrder watchedOrder rfl hb'
        ((patrol_spec env s.table time hlight hwatched).2 a').1

/-- A pass finds a light record of the fingerprint past its deadline. -/
def Marks (s : System) (f : CallstackFingerprint) (e : Event) : Prop :=
  ∃ time lightOrder watchedOrder, e = .patrol time lightOrder watchedOrder ∧
    ∃ a alloc, s.table.lightAllocationsByAddress.lookup a = some alloc ∧ alloc.fingerprint = f ∧
      alloc.deadline < time.toUInt32

/-- What a step does to the suspicious set. -/
theorem suspicious_step {e : Event} (hstep : s.Step env e s') (f : CallstackFingerprint) :
    f ∈ s'.table.suspiciousFingerprints ↔
      f ∈ s.table.suspiciousFingerprints ∨ s.Marks f e := by
  have hcall : (∀ time lightOrder watchedOrder, e ≠ .patrol time lightOrder watchedOrder) →
      (f ∈ s'.table.suspiciousFingerprints ↔ f ∈ s.table.suspiciousFingerprints) →
      (f ∈ s'.table.suspiciousFingerprints ↔
        f ∈ s.table.suspiciousFingerprints ∨ s.Marks f e) := by
    intro hnot hiff
    rw [hiff, or_iff_left fun ⟨time, lightOrder, watchedOrder, heq, _⟩ => hnot _ _ _ heq]
  have hnext := hstep.2
  cases e with
  | setWatchState w =>
      refine hcall (fun _ _ _ heq => nomatch heq) ?_
      rw [← Option.some.inj hnext]
  | allocate c r answer capacity =>
      refine hcall (fun _ _ _ heq => nomatch heq) ?_
      rw [← Option.some.inj hnext]
      exact (instrumentedAllocate_light env s.table c r.size.toUInt32 r.alignment.toUInt32
        r.fingerprint (fun _ => answer) r.zeroFill).1 f
  | reallocate c oldMemory newRequestedSize answer capacity =>
      refine hcall (fun _ _ _ heq => nomatch heq) ?_
      obtain ⟨o, ho, hs'⟩ := Option.map_eq_some_iff.mp hnext
      rw [← hs', mem_instrumentedReallocate ho]
  | free c memory released answer capacity =>
      refine hcall (fun _ _ _ heq => nomatch heq) ?_
      rw [← Option.some.inj hnext]
      exact mem_instrumentedFree s.table c memory (fun _ => answer) f
  | patrol time lightOrder watchedOrder =>
      obtain ⟨hlight, -, rfl⟩ := step_patrol hstep
      refine (mem_foldl_patrolWatched _ _ _ f).trans
        ((mem_foldl_patrolLight time.toUInt32 hlight.nodup s.table f).trans (or_congr_right ?_))
      constructor
      · intro ⟨key, _, alloc, halloc⟩
        exact ⟨time, lightOrder, watchedOrder, rfl, key, alloc, halloc⟩
      · intro ⟨_, _, _, heq, key, alloc, hlookup, hmarks⟩
        cases heq
        exact ⟨key, (hlight.mem_iff key).mpr (Finmap.mem_of_lookup_eq_some hlookup), alloc, hlookup,
          hmarks⟩

/-- `NULL` has no light record. -/
def LightNullFree (s : System) : Prop := s.table.lightAllocationsByAddress.lookup 0 = none

theorem lightNullFree_step (hheld : s.held 0 = none) (h : s.LightNullFree) {e : Event}
    (hsucceeds : s.LightReallocationSucceeds e) (hstep : s.Step env e s') :
    s'.LightNullFree := by
  cases e with
  | setWatchState w =>
      have hs' := (Option.some.inj hstep.2).symm
      subst hs'
      exact h
  | allocate c r answer capacity =>
      obtain ⟨-, -, effects, t', hcase, rfl⟩ := step_allocate hstep
      cases hcase with
      | untracked t' call memory hsame hlight => exact (congrArg _ hlight).trans h
      | light t' hbypass hsame hnull hlight =>
          exact (congrArg _ hlight).trans
            ((Finmap.lookup_insert_of_ne _ (Ne.symm hnull)).trans h)
      | watched t' call hcall hwatches hnull hlight => exact (congrArg _ hlight).trans h
  | reallocate c oldMemory newRequestedSize answer capacity =>
      obtain ⟨-, -, b, o, hb, -, hcase, rfl⟩ := step_reallocate hstep
      have hold := Ne.symm (ne_null_of_held hheld hb)
      cases hcase with
      | untracked t' hsame hlight => exact (congrArg _ hlight).trans h
      | light t' alloc hbypass hrecord hsame hlight =>
          have hnull : answer ≠ 0 := hsucceeds hbypass (by simp [hrecord])
          refine (congrArg _ hlight).trans ?_
          split_ifs
          · exact (lookup_rekey _ _ _ _ _).trans (by
              rw [if_neg hold, if_neg (Ne.symm hnull)]
              exact h)
          · exact (Finmap.lookup_insert_of_ne _ hold).trans h
      | replaced t' call alloc hcall hfinds hpages hsame hlight =>
          exact (congrArg _ hlight).trans h
      | kept t' alloc hfinds hpages hsame hlight => exact (congrArg _ hlight).trans h
  | free c memory released answer capacity =>
      obtain ⟨-, -, -, effects, t', hcase, rfl⟩ := step_free hstep
      cases hcase with
      | null => exact h
      | untracked t' hnull hsame hlight => exact (congrArg _ hlight).trans h
      | light t' hnull hsame hbypass hrecord hlight =>
          exact (congrArg _ hlight).trans ((Finmap.lookup_erase_ne (Ne.symm hnull)).trans h)
      | watched t' alloc hnull hfinds hlight => exact (congrArg _ hlight).trans h
  | patrol time lightOrder watchedOrder =>
      obtain ⟨hlight, hwatched, rfl⟩ := step_patrol hstep
      have hnone : s.table.lightAllocationsByAddress.lookup 0 = none := h
      refine ((patrol_spec env s.table time hlight hwatched).2 0).1.trans ?_
      rw [hnone]
      rfl

/-- An address with a light record is held. -/
theorem Consistent.held_of_light (hc : s.Consistent) (h : s.LightNullFree) {a : Address}
    {alloc : LightAllocation} (halloc : s.table.lightAllocationsByAddress.lookup a = some alloc) :
    ∃ b, s.held a = some b := by
  have ha : a ≠ 0 := by
    intro hzero
    rw [hzero, h] at halloc
    exact nomatch halloc
  have ⟨_, b, hb, _⟩ := (hc.tracks a ha).light (by simp [halloc])
  exact ⟨b, hb⟩

variable (x : Execution Initial (Step env))

/-- Event `j` allocates the block at time `t`, under watch, while its fingerprint
`f` is not suspicious. -/
def AllocatedUnderWatch (j t : ℕ) (f : CallstackFingerprint) (number : ℕ) : Prop :=
  ∃ c r answer capacity, x.event j = .allocate c r answer capacity ∧ r.fingerprint = f ∧
    StartsLight (x.state j).table c f answer ∧ c.time.toNat = t ∧
    number = (x.state j).nextBlock

/-- The block is held in every state after event `j`, up to state `n`. -/
def HeldSince (j n number : ℕ) : Prop := ∀ m, j < m → m ≤ n → (x.state m).HoldsBlock number

/-- Pass `k` finds a block, allocated under watch with the fingerprint, past its
time. -/
def FindsOverstayer (k : ℕ) (f : CallstackFingerprint) : Prop :=
  ∃ time lightOrder watchedOrder j t number, x.event k = .patrol time lightOrder watchedOrder ∧
    j < k ∧ AllocatedUnderWatch x j t f number ∧ HeldSince x j k number ∧
    t + env.timeForAllocationToBecomeSuspicious.toNat < time.toNat

/-- Clock readings and the times at which light records expire fit in 32 bits. -/
def LightTimesFit (env : Environment) : Event → Prop
  | .allocate c _ _ _ =>
      c.time.toNat + env.timeForAllocationToBecomeSuspicious.toNat < 2 ^ 32
  | .patrol time _ _ => time.toNat < 2 ^ 32
  | _ => True

instance (env : Environment) : (e : Event) → Decidable (LightTimesFit env e)
  | .allocate _ _ _ _ | .patrol _ _ _ => inferInstanceAs (Decidable (_ < _))
  | .setWatchState _ | .reallocate _ _ _ _ _ | .free _ _ _ _ _ => inferInstanceAs (Decidable True)

/-- The record is the one of the block, allocated by event `j` at time `t`. -/
structure LightHistory (n j t number : ℕ) (alloc : LightAllocation) : Prop where
  before : j < n
  allocated : AllocatedUnderWatch x j t alloc.fingerprint number
  held : HeldSince x j n number
  deadline : alloc.deadline.toNat = t + env.timeForAllocationToBecomeSuspicious.toNat

theorem lightRecord_deadline {c : Caller} {r : Request} {answer : Address} {capacity : ℕ}
    (h : LightTimesFit env (.allocate c r answer capacity)) (size : UInt32)
    (f : CallstackFingerprint) (memory : Address) :
    (lightRecord env c size f memory).deadline.toNat =
      c.time.toNat + env.timeForAllocationToBecomeSuspicious.toNat := by
  have hfit : c.time.toNat + env.timeForAllocationToBecomeSuspicious.toNat < 2 ^ 32 := h
  have hfit' : (c.time.toNat + env.timeForAllocationToBecomeSuspicious.toNat) % 2 ^ 64 = _ :=
    Nat.mod_eq_of_lt (by omega)
  rw [lightRecord, UInt64.toNat_toUInt32, UInt64.toNat_add, UInt32.toNat_toUInt64, hfit',
    Nat.mod_eq_of_lt hfit]

variable {x} in
theorem HeldSince.succ {j n number : ℕ} (h : HeldSince x j n number)
    (hheld : (x.state (n + 1)).HoldsBlock number) : HeldSince x j (n + 1) number := by
  intro m hjm hm
  cases Nat.le_succ_iff.mp hm with
  | inl hle => exact h m hjm hle
  | inr heq => exact heq ▸ hheld

variable {x} in
/-- A history is carried along with the record. -/
theorem LightHistory.succ {n j t number : ℕ} {alloc alloc' : LightAllocation}
    (h : LightHistory x n j t number alloc) (hmark : mark alloc' = mark alloc)
    (hheld : (x.state (n + 1)).HoldsBlock number) : LightHistory x (n + 1) j t number alloc' := by
  have ⟨hfingerprint, hdeadline⟩ := Prod.mk.inj hmark
  exact ⟨h.before.trans (Nat.lt_succ_self n), hfingerprint ▸ h.allocated, h.held.succ hheld,
    hdeadline ▸ h.deadline⟩

section Runs

variable {x} (hway : OneWay x)
  (hsucceeds : ∀ i < x.length, (x.state i).ReallocatorSucceeds (x.event i))
  (htimes : ∀ i < x.length, LightTimesFit env (x.event i))

theorem suspicious_mono {i k : ℕ} (hik : i ≤ k) (hk : k ≤ x.length) {f : CallstackFingerprint}
    (h : f ∈ (x.state i).table.suspiciousFingerprints) :
    f ∈ (x.state k).table.suspiciousFingerprints := by
  induction hik with
  | refl => exact h
  | step hik ih => exact (suspicious_step (x.steps _ hk) f).mpr (.inl (ih (Nat.le_of_succ_le hk)))

include hway hsucceeds

theorem lightNullFree_at : ∀ i ≤ x.length, (x.state i).LightNullFree := by
  refine x.holds_at _ ?_ fun i hi h => ?_
  · rw [LightNullFree, x.starts.table]
    rfl
  · exact lightNullFree_step (consistent_at x hway.synced i hi.le).null h (hsucceeds i hi).light
      (x.steps i hi)

theorem blockStep_at {i : ℕ} (hi : i < x.length) {a' : Address} {b' : Block}
    (hb' : (x.state (i + 1)).held a' = some b') :
    BlockStep env (x.state i) (x.event i) (x.state (i + 1)) a' b' :=
  blockStep (consistent_at x hway.synced i hi.le) (hway.synced i hi) (hsucceeds i hi) (x.steps i hi)
    hb'

include htimes

/-- Every light record has an allocation behind it. -/
theorem lightHistory_at : ∀ n ≤ x.length, ∀ a alloc b,
    (x.state n).table.lightAllocationsByAddress.lookup a = some alloc →
    (x.state n).held a = some b → ∃ j t, LightHistory x n j t b.number alloc := by
  refine x.holds_at _ ?_ fun n hn h => ?_
  · intro a alloc b halloc
    rw [x.starts.table] at halloc
    exact nomatch halloc
  intro a' alloc' b' halloc' hb'
  have hheld : (x.state (n + 1)).HoldsBlock b'.number := ⟨a', b', hb', rfl⟩
  cases blockStep_at hway hsucceeds hn hb' with
  | unrecorded hnumber hnone =>
      rw [hnone] at halloc'
      exact nomatch halloc'
  | started c r capacity hevent hstarts hnumber hrecord =>
      have halloc := Option.some.inj (halloc'.symm.trans hrecord)
      subst halloc
      refine ⟨n, c.time.toNat, Nat.lt_succ_self n, ?_, ?_, ?_⟩
      · exact ⟨c, r, a', capacity, hevent, rfl, hstarts, rfl, hnumber⟩
      · intro m hlt hle
        have heq : m = n + 1 := by omega
        exact heq ▸ hheld
      · exact lightRecord_deadline (hevent ▸ htimes n hn) _ _ _
  | carried a b hb hnumber hmark =>
      rw [halloc', Option.map_some] at hmark
      obtain ⟨alloc, halloc, hkept⟩ := Option.map_eq_some_iff.mp hmark.symm
      obtain ⟨j, t, hhistory⟩ := h a alloc b halloc hb
      rw [hnumber] at hhistory
      exact ⟨j, t, hhistory.succ hkept.symm hheld⟩
  | patrolled time lightOrder watchedOrder hevent hb hafter =>
      rw [halloc'] at hafter
      obtain ⟨alloc, halloc, hkept⟩ := Option.bind_eq_some_iff.mp hafter.symm
      split_ifs at hkept
      rw [← Option.some.inj hkept]
      obtain ⟨j, t, hhistory⟩ := h a' alloc b' halloc hb
      exact ⟨j, t, hhistory.succ rfl hheld⟩

/-- A block that was allocated under watch and is still held has its record, or
its fingerprint is suspicious. -/
theorem followed_at (f : CallstackFingerprint) : ∀ n ≤ x.length, ∀ j t number, j < n →
    AllocatedUnderWatch x j t f number → HeldSince x j n number →
    f ∈ (x.state n).table.suspiciousFingerprints ∨
      ∃ a b alloc, (x.state n).held a = some b ∧ b.number = number ∧
        (x.state n).table.lightAllocationsByAddress.lookup a = some alloc ∧
        alloc.fingerprint = f ∧
        alloc.deadline.toNat = t + env.timeForAllocationToBecomeSuspicious.toNat := by
  refine x.holds_at _ (fun j t number hj => absurd hj (Nat.not_lt_zero j)) fun n hn h => ?_
  intro j t number hj hallocated hheld
  cases Nat.lt_succ_iff_lt_or_eq.mp hj with
  | inr heq =>
      -- the event is the allocation itself
      subst heq
      obtain ⟨c, r, answer, capacity, hevent, rfl, hstarts, rfl, hnumber⟩ := hallocated
      have hstep := x.steps j hn
      have hfit := htimes j hn
      rw [hevent] at hstep hfit
      have ⟨⟨b, hb, hnew⟩, hrecord⟩ := started_spec hstep hstarts
      exact .inr ⟨answer, b, _, hb, hnew.trans hnumber.symm, hrecord, rfl,
        lightRecord_deadline hfit _ _ _⟩
  | inl hlt =>
      have hheld' : HeldSince x j n number := fun m hjm hm => hheld m hjm (Nat.le_succ_of_le hm)
      cases h j t number hlt hallocated hheld' with
      | inl hsuspicious => exact .inl (suspicious_mono (Nat.le_succ n) hn hsuspicious)
      | inr hrecord =>
          obtain ⟨a, b, alloc, hb, rfl, halloc, rfl, hdeadline⟩ := hrecord
          obtain ⟨a', b', hb', hnumber⟩ := hheld (n + 1) hj le_rfl
          have hnumbered := numbered_at x n hn.le
          have hnew := hnumbered.lt a b hb
          cases blockStep_at hway hsucceeds hn hb' with
          | unrecorded hnext | started c r capacity hevent hstarts hnext => omega
          | carried a₀ b₀ hb₀ hnumber₀ hmark =>
              have ha := hnumbered.inj a₀ b₀ a b hb₀ hb (hnumber₀.trans hnumber)
              rw [ha, halloc, Option.map_some] at hmark
              obtain ⟨alloc', halloc', hkept⟩ := Option.map_eq_some_iff.mp hmark
              have ⟨hfingerprint, hdeadline'⟩ := Prod.mk.inj hkept
              exact .inr ⟨a', b', alloc', hb', hnumber, halloc', hfingerprint,
                hdeadline' ▸ hdeadline⟩
          | patrolled time lightOrder watchedOrder hevent hb₀ hafter =>
              have ha := hnumbered.inj a' b' a b hb₀ hb hnumber
              rw [ha, halloc] at hafter
              by_cases hlate : alloc.deadline < time.toUInt32
              · exact .inl ((suspicious_step (x.steps n hn) _).mpr (.inr ⟨time, lightOrder,
                  watchedOrder, hevent, a, alloc, halloc, rfl, hlate⟩))
              · refine .inr ⟨a', b', alloc, hb', hnumber, ?_, rfl, hdeadline⟩
                rw [ha, hafter, lightAfter, Option.bind_some, if_neg hlate]

/-- A pass marks exactly the fingerprints of the overstayers it finds, unless they
are suspicious already. -/
theorem suspicious_succ_iff {k : ℕ} (hk : k < x.length) (f : CallstackFingerprint) :
    f ∈ (x.state (k + 1)).table.suspiciousFingerprints ↔
      f ∈ (x.state k).table.suspiciousFingerprints ∨ FindsOverstayer x k f := by
  rw [suspicious_step (x.steps k hk)]
  have hlate : ∀ {alloc : LightAllocation} {time : UInt64} {t : ℕ}, time.toNat < 2 ^ 32 →
      alloc.deadline.toNat = t + env.timeForAllocationToBecomeSuspicious.toNat →
      (alloc.deadline < time.toUInt32 ↔
        t + env.timeForAllocationToBecomeSuspicious.toNat < time.toNat) := by
    intro alloc time t htime hdeadline
    rw [UInt32.lt_iff_toNat_lt, toUInt32_toNat htime, hdeadline]
  have htime : ∀ {time lightOrder watchedOrder},
      x.event k = .patrol time lightOrder watchedOrder → time.toNat < 2 ^ 32 := by
    intro time lightOrder watchedOrder hevent
    have hfit := htimes k hk
    rw [hevent] at hfit
    exact hfit
  constructor
  · rintro (hold | ⟨time, lightOrder, watchedOrder, hevent, a, alloc, halloc, rfl, hmarks⟩)
    · exact .inl hold
    · obtain ⟨b, hb⟩ := (consistent_at x hway.synced k hk.le).held_of_light
        (lightNullFree_at hway hsucceeds k hk.le) halloc
      obtain ⟨j, t, hhistory⟩ := lightHistory_at hway hsucceeds htimes k hk.le a alloc b halloc hb
      exact .inr ⟨time, lightOrder, watchedOrder, j, t, b.number, hevent, hhistory.before,
        hhistory.allocated, hhistory.held, (hlate (htime hevent) hhistory.deadline).mp hmarks⟩
  · rintro (hold | ⟨time, lightOrder, watchedOrder, j, t, number, hevent, hjk, hallocated, hheld,
      hover⟩)
    · exact .inl hold
    · cases followed_at hway hsucceeds htimes f k hk.le j t number hjk hallocated hheld with
      | inl hsuspicious => exact .inl hsuspicious
      | inr hrecord =>
          obtain ⟨a, b, alloc, -, -, halloc, hf, hdeadline⟩ := hrecord
          exact .inr ⟨time, lightOrder, watchedOrder, hevent, a, alloc, halloc, hf,
            (hlate (htime hevent) hdeadline).mpr hover⟩

/-- In every state of a run with a one-way start signal and a reallocator that
does not fail: a fingerprint is suspicious if and only if some earlier pass found
an overstayer of it. The set only grows, a pass that marks a fingerprint again
keeps the traces and counters recorded under it, and a light record of a
suspicious fingerprint is about a block that had such a record before. -/
theorem suspicious_iff_overstayed :
    (∀ i ≤ x.length, ∀ f, f ∈ (x.state i).table.suspiciousFingerprints ↔
      ∃ k < i, FindsOverstayer x k f) ∧
    ∀ i < x.length,
      (∀ f ∈ (x.state i).table.suspiciousFingerprints,
        f ∈ (x.state (i + 1)).table.suspiciousFingerprints) ∧
      (∀ time lightOrder watchedOrder, x.event i = .patrol time lightOrder watchedOrder →
        ∀ f traces, (x.state i).table.suspiciousFingerprints.lookup f = some traces →
          (lightOrder.foldl (patrolLight time.toUInt32)
            (x.state i).table).suspiciousFingerprints.lookup f = some traces) ∧
      ∀ f ∈ (x.state i).table.suspiciousFingerprints, ∀ a alloc b,
        (x.state (i + 1)).table.lightAllocationsByAddress.lookup a = some alloc →
        alloc.fingerprint = f → (x.state (i + 1)).held a = some b →
        ∃ a₀ alloc₀ b₀, (x.state i).table.lightAllocationsByAddress.lookup a₀ = some alloc₀ ∧
          alloc₀.fingerprint = f ∧ (x.state i).held a₀ = some b₀ ∧ b₀.number = b.number := by
  constructor
  · intro i hi f
    induction i with
    | zero =>
        rw [x.starts.table]
        exact ⟨fun h => absurd h Finmap.notMem_empty, fun ⟨k, hk, _⟩ => absurd hk (Nat.not_lt_zero k)⟩
    | succ i ih =>
        rw [suspicious_succ_iff hway hsucceeds htimes hi f, ih (Nat.le_of_succ_le hi)]
        constructor
        · rintro (⟨k, hk, hfinds⟩ | hfinds)
          · exact ⟨k, hk.trans (Nat.lt_succ_self i), hfinds⟩
          · exact ⟨i, Nat.lt_succ_self i, hfinds⟩
        · intro ⟨k, hk, hfinds⟩
          cases Nat.lt_succ_iff_lt_or_eq.mp hk with
          | inl hlt => exact .inl ⟨k, hlt, hfinds⟩
          | inr heq => exact .inr (heq ▸ hfinds)
  intro i hi
  refine ⟨fun f hf => suspicious_mono (Nat.le_succ i) hi hf, ?_, ?_⟩
  · intro time lightOrder watchedOrder _ f traces htraces
    exact lookup_foldl_patrolLight time.toUInt32 lightOrder _ htraces
  · intro f hf a alloc b halloc hfingerprint hb
    cases blockStep_at hway hsucceeds hi hb with
    | unrecorded hnumber hnone =>
        rw [hnone] at halloc
        exact nomatch halloc
    | started c r capacity hevent hstarts hnumber hrecord =>
        have heq := Option.some.inj (halloc.symm.trans hrecord)
        have hnew : r.fingerprint = f := (congrArg LightAllocation.fingerprint heq).symm.trans
          hfingerprint
        exact absurd (hnew ▸ hf) hstarts.2.1
    | carried a₀ b₀ hb₀ hnumber hmark =>
        rw [halloc, Option.map_some] at hmark
        obtain ⟨alloc₀, halloc₀, hkept⟩ := Option.map_eq_some_iff.mp hmark.symm
        exact ⟨a₀, alloc₀, b₀, halloc₀, (Prod.mk.inj hkept).1.trans hfingerprint, hb₀, hnumber⟩
    | patrolled time lightOrder watchedOrder hevent hb₀ hafter =>
        rw [halloc] at hafter
        obtain ⟨alloc₀, halloc₀, hkept⟩ := Option.bind_eq_some_iff.mp hafter.symm
        split_ifs at hkept
        rw [← Option.some.inj hkept] at hfingerprint
        exact ⟨a, alloc₀, b, halloc₀, hfingerprint, hb₀, rfl⟩

end Runs

/-- The pass of the run that finds the light allocation past its time. -/
theorem suspicious_iff_overstayed_leakRun :
    7 ∈ (leakRun.state 3).table.suspiciousFingerprints ↔ ∃ k < 3, FindsOverstayer leakRun k 7 :=
  (suspicious_iff_overstayed oneWay_leakRun (by decide +kernel) (by decide +kernel)).1 3 (by decide)
    7

end System

end AllocCounter
