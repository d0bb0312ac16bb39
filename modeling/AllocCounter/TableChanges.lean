import AllocCounter.AllocationTable

/-!
# What the calls change in the allocation table

One case lemma for each instrumented call. The counters of a trace are read
through `info`, which shows an entry not created yet as a fresh one, so creating
an entry changes nothing.
-/
namespace AllocCounter.AllocationTable

/-- The counters of an entry; those of a fresh entry where there is none. -/
def info (t : AllocationTable) (w : TraceEntry) : WatchedStackTraceInfo :=
  (t.info? w).getD { stackTrace := w.stackTrace }

def Known (t : AllocationTable) (w : TraceEntry) : Prop := (t.info? w).isSome

/-- The records point to `w`. -/
def PointsTo (w : TraceEntry) (alloc : CloselyWatchedAllocation) : Prop :=
  alloc.watchedStackTraceInfo = w

instance (w : TraceEntry) : DecidablePred (PointsTo w) :=
  fun alloc => inferInstanceAs (Decidable (alloc.watchedStackTraceInfo = w))

theorem info?_setInfo {t : AllocationTable} {w : TraceEntry} {traces : SuspiciousStackTracesTable}
    (h : t.suspiciousFingerprints.lookup w.fingerprint = some traces)
    (i : WatchedStackTraceInfo) (w' : TraceEntry) :
    (t.setInfo w traces i).info? w' = if w' = w then some i else t.info? w' := by
  obtain ⟨fingerprint, trace⟩ := w'
  by_cases hf : fingerprint = w.fingerprint
  · subst hf
    simp only [info?, setInfo, Finmap.lookup_insert, Option.bind_some, h,
      UnorderedMap.lookup_insert_eq]
    by_cases hs : trace = w.stackTrace
    · subst hs
      simp
    · have : (⟨w.fingerprint, trace⟩ : TraceEntry) ≠ w := fun e => hs (congrArg TraceEntry.stackTrace e)
      simp [this, hs]
  · have : (⟨fingerprint, trace⟩ : TraceEntry) ≠ w := fun e => hf (congrArg TraceEntry.fingerprint e)
    simp only [info?, setInfo, Finmap.lookup_insert_of_ne _ hf, this, if_false]

theorem info?_modifyInfo (t : AllocationTable) (w : TraceEntry)
    (f : WatchedStackTraceInfo → WatchedStackTraceInfo) (w' : TraceEntry) :
    (t.modifyInfo w f).info? w' = if w' = w then (t.info? w).map f else t.info? w' := by
  unfold modifyInfo
  cases hf : t.suspiciousFingerprints.lookup w.fingerprint with
  | none =>
      split_ifs with hw
      · rw [hw]
        simp [info?, hf]
      · rfl
  | some traces =>
      dsimp only
      cases hs : traces.lookup w.stackTrace with
      | none =>
          split_ifs with hw
          · rw [hw]
            simp [info?, hf, hs]
          · rfl
      | some i =>
          dsimp only
          rw [info?_setInfo hf]
          split_ifs
          · simp [info?, hf, hs]
          · rfl

section Frame

variable (t : AllocationTable) (w : TraceEntry)
  (f : WatchedStackTraceInfo → WatchedStackTraceInfo)

@[simp] theorem modifyInfo_light :
    (t.modifyInfo w f).lightAllocationsByAddress = t.lightAllocationsByAddress := by
  unfold modifyInfo
  split
  · rfl
  · split <;> rfl

@[simp] theorem modifyInfo_watched :
    (t.modifyInfo w f).closelyWatchedAllocationsByAddress =
      t.closelyWatchedAllocationsByAddress := by
  unfold modifyInfo
  split
  · rfl
  · split <;> rfl

@[simp] theorem modifyInfo_global :
    (t.modifyInfo w f).countLiveCloselyWatchedAllocationsAllTraces =
      t.countLiveCloselyWatchedAllocationsAllTraces := by
  unfold modifyInfo
  split
  · rfl
  · split <;> rfl

@[simp] theorem modifyInfo_stats : (t.modifyInfo w f).stats = t.stats := by
  unfold modifyInfo
  split
  · rfl
  · split <;> rfl

end Frame

theorem info_modifyInfo {t : AllocationTable} {w : TraceEntry} (h : t.Known w)
    (f : WatchedStackTraceInfo → WatchedStackTraceInfo) (w' : TraceEntry) :
    (t.modifyInfo w f).info w' = if w' = w then f (t.info w) else t.info w' := by
  obtain ⟨i, hi⟩ := Option.isSome_iff_exists.mp h
  rw [info, info?_modifyInfo]
  split_ifs
  · rw [info, hi]
    rfl
  · rfl

theorem known_modifyInfo {t : AllocationTable} {w : TraceEntry}
    (f : WatchedStackTraceInfo → WatchedStackTraceInfo) {w' : TraceEntry} (h : t.Known w') :
    (t.modifyInfo w f).Known w' := by
  rw [Known, info?_modifyInfo]
  split_ifs with hw
  · rw [Option.isSome_map, ← hw]
    exact h
  · exact h

theorem info?_addSuspiciousFingerprint (t : AllocationTable) (fingerprint : CallstackFingerprint)
    (w : TraceEntry) : (t.addSuspiciousFingerprint fingerprint).info? w = t.info? w := by
  by_cases hm : fingerprint ∈ t.suspiciousFingerprints
  · simp only [info?, addSuspiciousFingerprint, UnorderedMap.insertNew, hm, if_true]
  · simp only [info?, addSuspiciousFingerprint, UnorderedMap.insertNew, hm, if_false,
      UnorderedMap.lookup_insert_eq]
    split_ifs with hw
    · rw [hw, Finmap.lookup_eq_none.mpr hm]
      rfl
    · rfl

/-- The closely watched records and what is counted of them are the same, and no
entry is lost. -/
structure SameCounters (t t' : AllocationTable) : Prop where
  watched : t'.closelyWatchedAllocationsByAddress = t.closelyWatchedAllocationsByAddress
  global : t'.countLiveCloselyWatchedAllocationsAllTraces =
    t.countLiveCloselyWatchedAllocationsAllTraces
  known : ∀ w, t.Known w → t'.Known w
  created : ∀ w, (t'.info w).countTotalCloselyWatchedAllocationsEverCreated =
    (t.info w).countTotalCloselyWatchedAllocationsEverCreated
  live : ∀ w, (t'.info w).countLiveCloselyWatchedAllocations =
    (t.info w).countLiveCloselyWatchedAllocations
  leaked : ∀ w, (t'.info w).countLeakedCloselyWatchedAllocations =
    (t.info w).countLeakedCloselyWatchedAllocations

theorem SameCounters.trans {t t' t'' : AllocationTable} (h : SameCounters t t')
    (h' : SameCounters t' t'') : SameCounters t t'' where
  watched := h'.watched.trans h.watched
  global := h'.global.trans h.global
  known w hw := h'.known w (h.known w hw)
  created w := (h'.created w).trans (h.created w)
  live w := (h'.live w).trans (h.live w)
  leaked w := (h'.leaked w).trans (h.leaked w)

theorem SameCounters.of_info? {t t' : AllocationTable}
    (hwatched : t'.closelyWatchedAllocationsByAddress = t.closelyWatchedAllocationsByAddress)
    (hglobal : t'.countLiveCloselyWatchedAllocationsAllTraces =
      t.countLiveCloselyWatchedAllocationsAllTraces)
    (hinfo : ∀ w, t'.info? w = t.info? w) : SameCounters t t' where
  watched := hwatched
  global := hglobal
  known w h := by rwa [Known, hinfo]
  created w := by rw [info, hinfo, info]
  live w := by rw [info, hinfo, info]
  leaked w := by rw [info, hinfo, info]

theorem SameCounters.refl (t : AllocationTable) : SameCounters t t :=
  .of_info? rfl rfl fun _ => rfl

/-- `getOrCreate` shows every entry as it was. -/
theorem getOrCreate_info (t : AllocationTable) {fingerprint : CallstackFingerprint}
    {traces : SuspiciousStackTracesTable} (trace : StackTrace)
    (h : t.suspiciousFingerprints.lookup fingerprint = some traces) (w : TraceEntry) :
    (t.getOrCreate fingerprint traces trace).1.info w = t.info w := by
  unfold getOrCreate
  cases hs : traces.lookup trace with
  | some i => rfl
  | none =>
      dsimp only
      rw [info, info?_setInfo (w := ⟨fingerprint, trace⟩) h]
      split_ifs with hw
      · have hnone : t.info? ⟨fingerprint, trace⟩ = none := by simp [info?, h, hs]
        simp [hw, info, hnone]
      · rfl

/-- `getOrCreate` finds or creates the entry, and shows the same counters. -/
theorem getOrCreate_spec (t : AllocationTable) {fingerprint : CallstackFingerprint}
    {traces : SuspiciousStackTracesTable} (trace : StackTrace)
    (h : t.suspiciousFingerprints.lookup fingerprint = some traces) :
    SameCounters t (t.getOrCreate fingerprint traces trace).1 ∧
      (t.getOrCreate fingerprint traces trace).1.lightAllocationsByAddress =
        t.lightAllocationsByAddress ∧
      (t.getOrCreate fingerprint traces trace).1.Known ⟨fingerprint, trace⟩ ∧
      (t.getOrCreate fingerprint traces trace).2 = t.info ⟨fingerprint, trace⟩ := by
  cases hs : traces.lookup trace with
  | some i =>
      simp only [getOrCreate, hs]
      exact ⟨.refl t, trivial, by simp [Known, info?, h, hs], by simp [info, info?, h, hs]⟩
  | none =>
      simp only [getOrCreate, hs]
      have hinfo := info?_setInfo (w := ⟨fingerprint, trace⟩) h { stackTrace := trace }
      have hnone : t.info? ⟨fingerprint, trace⟩ = none := by simp [info?, h, hs]
      have hsame := getOrCreate_info t trace h
      simp only [getOrCreate, hs] at hsame
      refine ⟨⟨rfl, rfl, ?_, fun w => by rw [hsame], fun w => by rw [hsame],
        fun w => by rw [hsame]⟩, rfl, ?_, ?_⟩
      · intro w hw
        rw [Known, hinfo]
        split_ifs
        · rfl
        · exact hw
      · rw [Known, hinfo, if_pos rfl]
        rfl
      · simp [info, hnone]

theorem sameCounters_skip {t : AllocationTable} {w : TraceEntry} (h : t.Known w) :
    SameCounters t (t.modifyInfo w fun i =>
      { i with countSkippedAllocations := i.countSkippedAllocations + 1 }) := by
  have hinfo := info_modifyInfo h fun i =>
    { i with countSkippedAllocations := i.countSkippedAllocations + 1 }
  refine ⟨by simp, by simp, fun w' => known_modifyInfo _, ?_, ?_, ?_⟩
  all_goals
    intro w'
    rw [hinfo]
    split_ifs with hw
    · rw [hw]
    · rfl

/-- A closely watched allocation enters the books. -/
structure AddsWatched (t t' : AllocationTable) (memory : Address)
    (alloc : CloselyWatchedAllocation) : Prop where
  watched : t'.closelyWatchedAllocationsByAddress =
    t.closelyWatchedAllocationsByAddress.insert memory alloc
  global : t'.countLiveCloselyWatchedAllocationsAllTraces =
    t.countLiveCloselyWatchedAllocationsAllTraces + 1
  known : ∀ w, t.Known w → t'.Known w
  entry : t'.Known alloc.watchedStackTraceInfo
  created : ∀ w, (t'.info w).countTotalCloselyWatchedAllocationsEverCreated =
    (t.info w).countTotalCloselyWatchedAllocationsEverCreated + if PointsTo w alloc then 1 else 0
  live : ∀ w, (t'.info w).countLiveCloselyWatchedAllocations =
    (t.info w).countLiveCloselyWatchedAllocations + if PointsTo w alloc then 1 else 0
  leaked : ∀ w, (t'.info w).countLeakedCloselyWatchedAllocations =
    (t.info w).countLeakedCloselyWatchedAllocations

/-- A closely watched allocation leaves the books, as a leak or freed. -/
structure RemovesWatched (t t' : AllocationTable) (memory : Address)
    (alloc : CloselyWatchedAllocation) (leak : Prop) [Decidable leak] : Prop where
  light : t'.lightAllocationsByAddress = t.lightAllocationsByAddress
  watched : t'.closelyWatchedAllocationsByAddress =
    t.closelyWatchedAllocationsByAddress.erase memory
  global : t'.countLiveCloselyWatchedAllocationsAllTraces =
    t.countLiveCloselyWatchedAllocationsAllTraces - 1
  known : ∀ w, t.Known w → t'.Known w
  created : ∀ w, (t'.info w).countTotalCloselyWatchedAllocationsEverCreated =
    (t.info w).countTotalCloselyWatchedAllocationsEverCreated
  live : ∀ w, (t'.info w).countLiveCloselyWatchedAllocations =
    (t.info w).countLiveCloselyWatchedAllocations - if PointsTo w alloc then 1 else 0
  leaked : ∀ w, (t'.info w).countLeakedCloselyWatchedAllocations =
    (t.info w).countLeakedCloselyWatchedAllocations +
      if leak ∧ PointsTo w alloc then 1 else 0

theorem finishWatched_spec {t : AllocationTable} {memory : Address}
    {alloc : CloselyWatchedAllocation} (h : t.Known alloc.watchedStackTraceInfo)
    (f : WatchedStackTraceInfo → WatchedStackTraceInfo) (leak : Prop) [Decidable leak]
    (hcreated : ∀ i, (f i).countTotalCloselyWatchedAllocationsEverCreated =
      i.countTotalCloselyWatchedAllocationsEverCreated)
    (hlive : ∀ i, (f i).countLiveCloselyWatchedAllocations = i.countLiveCloselyWatchedAllocations)
    (hleaked : ∀ i, (f i).countLeakedCloselyWatchedAllocations =
      i.countLeakedCloselyWatchedAllocations + if leak then 1 else 0) :
    RemovesWatched t (t.finishWatched memory alloc f) memory alloc leak := by
  have hinfo := info_modifyInfo h fun i => f
    { i with countLiveCloselyWatchedAllocations := i.countLiveCloselyWatchedAllocations - 1 }
  have hview : ∀ w, (t.finishWatched memory alloc f).info w = (t.modifyInfo _ _).info w :=
    fun _ => rfl
  refine ⟨by simp [finishWatched], by simp [finishWatched], by simp [finishWatched],
    fun w => known_modifyInfo _, ?_, ?_, ?_⟩
  all_goals
    intro w
    rw [hview, hinfo]
    by_cases hw : w = alloc.watchedStackTraceInfo
    · simp [hw, PointsTo, hcreated, hlive, hleaked]
    · simp [hw, PointsTo, Ne.symm hw]

theorem startWatched_spec {t : AllocationTable} (memory : Address)
    (alloc : CloselyWatchedAllocation) (h : t.Known alloc.watchedStackTraceInfo) :
    AddsWatched t (t.startWatched memory alloc) memory alloc := by
  have hinfo := info_modifyInfo h fun i =>
    { i with
      countLiveCloselyWatchedAllocations := i.countLiveCloselyWatchedAllocations + 1
      countTotalCloselyWatchedAllocationsEverCreated :=
        i.countTotalCloselyWatchedAllocationsEverCreated + 1 }
  have hview : ∀ w, (t.startWatched memory alloc).info w = (t.modifyInfo _ _).info w :=
    fun _ => rfl
  refine ⟨by simp [startWatched], by simp [startWatched], fun w => known_modifyInfo _,
    known_modifyInfo _ h, ?_, ?_, ?_⟩
  all_goals
    intro w
    rw [hview, hinfo]
    by_cases hw : w = alloc.watchedStackTraceInfo
    · simp [hw, PointsTo]
    · simp [hw, PointsTo, Ne.symm hw]

theorem SameCounters.addsWatched {t t' t'' : AllocationTable} (h : SameCounters t t')
    {memory : Address} {alloc : CloselyWatchedAllocation} (h' : AddsWatched t' t'' memory alloc) :
    AddsWatched t t'' memory alloc where
  watched := h'.watched.trans (h.watched ▸ rfl)
  global := h'.global.trans (h.global ▸ rfl)
  known w hw := h'.known w (h.known w hw)
  entry := h'.entry
  created w := (h'.created w).trans (h.created w ▸ rfl)
  live w := (h'.live w).trans (h.live w ▸ rfl)
  leaked w := (h'.leaked w).trans (h.leaked w)

theorem SameCounters.removesWatched {t t' t'' : AllocationTable} (h : SameCounters t t')
    (hlight : t'.lightAllocationsByAddress = t.lightAllocationsByAddress) {memory : Address}
    {alloc : CloselyWatchedAllocation} {leak : Prop} [Decidable leak]
    (h' : RemovesWatched t' t'' memory alloc leak) : RemovesWatched t t'' memory alloc leak where
  light := h'.light.trans hlight
  watched := h'.watched.trans (h.watched ▸ rfl)
  global := h'.global.trans (h.global ▸ rfl)
  known w hw := h'.known w (h.known w hw)
  created w := (h'.created w).trans (h.created w)
  live w := (h'.live w).trans (h.live w ▸ rfl)
  leaked w := (h'.leaked w).trans (h.leaked w ▸ rfl)

variable (env : Environment)

/-- The allocation is given a closely watched block. -/
def Watches (t : AllocationTable) (c : Caller) (fingerprint : CallstackFingerprint) : Prop :=
  ¬ Bypasses c ∧ fingerprint ∈ t.suspiciousFingerprints ∧
    (t.info ⟨fingerprint, c.stackTrace⟩).needsMoreCloselyWatchedAllocations env
      t.countLiveCloselyWatchedAllocationsAllTraces = true

/-- The call that provides a closely watched block. -/
def watchedCall (size alignment : UInt32) : RealCall :=
  .memalign (max alignment env.pageSize).toUInt64 (env.roundUpToPageMultiple size).toUInt64

/-- The cases of `instrumentedAllocate`: without a record (the call fails, is
skipped or goes past the table), with a light record, closely watched. -/
inductive AllocateCase (t : AllocationTable) (c : Caller) (size alignment : UInt32)
    (fingerprint : CallstackFingerprint) (real : RealCall → Address) (zeroFill : ZeroFill) :
    Outcome → Prop
  | untracked (t' : AllocationTable) (call : RealCall) (memory : Address) :
      SameCounters t t' → t'.lightAllocationsByAddress = t.lightAllocationsByAddress →
      memory = real call → (call = .preferred ∧ ¬ Watches env t c fingerprint ∨ memory = 0) →
      AllocateCase t c size alignment fingerprint real zeroFill
        ⟨t', memory, [.real call memory]⟩
  | light (t' : AllocationTable) : ¬ Bypasses c → SameCounters t t' → real .preferred ≠ 0 →
      t'.lightAllocationsByAddress = t.lightAllocationsByAddress.insert (real .preferred)
        { fingerprint := fingerprint
          memory := real .preferred
          requestedSize := size
          deadline := (c.time + env.timeForAllocationToBecomeSuspicious.toUInt64).toUInt32 } →
      ¬ Watches env t c fingerprint →
      AllocateCase t c size alignment fingerprint real zeroFill
        ⟨t', real .preferred, [.real .preferred (real .preferred)]⟩
  | watched (t' : AllocationTable) (call : RealCall) : call = watchedCall env size alignment →
      Watches env t c fingerprint → real call ≠ 0 →
      t'.lightAllocationsByAddress = t.lightAllocationsByAddress →
      AddsWatched t t' (real call)
        { memory := real call
          requestedSize := size
          allocationTime := c.time.toUInt32
          deadline := c.time.toUInt32 + env.timeForAllocationToBecomeSuspicious
          state := .notYetSuspicious
          watchedStackTraceInfo := ⟨fingerprint, c.stackTrace⟩ } →
      AllocateCase t c size alignment fingerprint real zeroFill
        ⟨t', real call, .real call (real call) :: zeroFill.fill (real call) size⟩

theorem instrumentedAllocate_cases (t : AllocationTable) (c : Caller) (size alignment : UInt32)
    (fingerprint : CallstackFingerprint) (real : RealCall → Address) (zeroFill : ZeroFill) :
    AllocateCase env t c size alignment fingerprint real zeroFill
      (t.instrumentedAllocate env c size alignment fingerprint real zeroFill) := by
  unfold instrumentedAllocate
  by_cases hbypass : Bypasses c
  · rw [if_pos hbypass]
    exact .untracked t .preferred _ (.refl t) rfl rfl (.inl ⟨rfl, fun hw => hw.1 hbypass⟩)
  rw [if_neg hbypass]
  cases hfp : t.suspiciousFingerprints.lookup fingerprint with
  | none =>
      dsimp only
      split_ifs with hnull
      · rw [hnull]
        exact .untracked _ .preferred 0 (.of_info? rfl rfl fun _ => rfl) rfl hnull.symm (.inr rfl)
      · exact .light _ hbypass (.of_info? rfl rfl fun _ => rfl) hnull rfl
          fun hw => Finmap.lookup_eq_none.mp hfp hw.2.1
  | some traces =>
      dsimp only
      generalize hstats : ({ t with stats := _ } : AllocationTable) = t₁
      have hfp₁ : t₁.suspiciousFingerprints.lookup fingerprint = some traces := hstats ▸ hfp
      have hsame : SameCounters t t₁ := hstats ▸ .of_info? rfl rfl fun _ => rfl
      have hlight : t₁.lightAllocationsByAddress = t.lightAllocationsByAddress := hstats ▸ rfl
      have hinfo₁ : ∀ w, t₁.info w = t.info w := fun w => hstats ▸ rfl
      have ⟨hcreate, hcreateLight, hknown, hinfo⟩ := getOrCreate_spec t₁ c.stackTrace hfp₁
      generalize t₁.getOrCreate fingerprint traces c.stackTrace = p at *
      obtain ⟨t₂, i⟩ := p
      dsimp only at *
      have hjudged : t.info ⟨fingerprint, c.stackTrace⟩ = i := (hinfo₁ _).symm.trans hinfo.symm
      have hglobal := hcreate.global.trans hsame.global
      by_cases hmore : i.needsMoreCloselyWatchedAllocations env
          t₂.countLiveCloselyWatchedAllocationsAllTraces = true
      · rw [if_neg (not_not.mpr hmore)]
        have hwatches : Watches env t c fingerprint := by
          refine ⟨hbypass, Finmap.mem_of_lookup_eq_some hfp, ?_⟩
          rwa [hjudged, ← hglobal]
        have hadd := startWatched_spec (real (watchedCall env size alignment))
          { memory := real (watchedCall env size alignment)
            requestedSize := size
            allocationTime := c.time.toUInt32
            deadline := c.time.toUInt32 + env.timeForAllocationToBecomeSuspicious
            state := .notYetSuspicious
            watchedStackTraceInfo := ⟨fingerprint, c.stackTrace⟩ } hknown
        split_ifs with hnull
        · rw [hnull]
          exact .untracked _ _ 0 (hsame.trans hcreate) (hcreateLight.trans hlight) hnull.symm
            (.inr rfl)
        · exact .watched _ _ rfl hwatches hnull (by simp [startWatched, hcreateLight, hlight])
            ((hsame.trans hcreate).addsWatched hadd)
      · rw [if_pos hmore]
        have hskips : ¬ Watches env t c fingerprint := by
          intro hw
          have hneeds := hw.2.2
          rw [hjudged, ← hglobal] at hneeds
          exact hmore hneeds
        exact .untracked _ .preferred _ (hsame.trans (hcreate.trans (sameCounters_skip hknown)))
          (by simp [hcreateLight, hlight]) rfl (.inl ⟨rfl, hskips⟩)

/-- The address has no record. -/
def Untracked (t : AllocationTable) (memory : Address) : Prop :=
  t.lightAllocationsByAddress.lookup memory = none ∧
    t.closelyWatchedAllocationsByAddress.lookup memory = none

instance (t : AllocationTable) (memory : Address) : Decidable (t.Untracked memory) :=
  inferInstanceAs (Decidable (_ ∧ _))

/-- The call that replaces a closely watched block. -/
def replacingCall (newRequestedSize : UInt64) : RealCall :=
  .memalign env.pageSize.toUInt64 (env.roundUpToPageMultiple newRequestedSize.toUInt32).toUInt64

/-- The address is looked up and its closely watched record is found. -/
def FindsWatched (t : AllocationTable) (c : Caller) (memory : Address)
    (alloc : CloselyWatchedAllocation) : Prop :=
  ¬ Bypasses c ∧ t.lightAllocationsByAddress.lookup memory = none ∧
    t.closelyWatchedAllocationsByAddress.lookup memory = some alloc

/-- The block takes another number of pages. -/
def Repaginates (alloc : CloselyWatchedAllocation) (newRequestedSize : UInt64) : Prop :=
  env.roundUpToPageMultiple newRequestedSize.toUInt32 ≠
    env.roundUpToPageMultiple alloc.requestedSize

instance (alloc : CloselyWatchedAllocation) (newRequestedSize : UInt64) :
    Decidable (Repaginates env alloc newRequestedSize) := inferInstanceAs (Decidable (_ ≠ _))

theorem lookup_rekey {V : Type} (m : UnorderedMap Address V) (oldMemory newMemory : Address)
    (alloc : V) (a : Address) :
    (rekey m oldMemory newMemory alloc).lookup a =
      if a = oldMemory then none
      else if a = newMemory then some ((m.lookup a).getD alloc) else m.lookup a := by
  rw [rekey, UnorderedMap.lookup_erase_eq]
  by_cases ha : a = newMemory
  · subst ha
    cases h : m.lookup a with
    | none => rw [UnorderedMap.insertNew_of_notMem h, Finmap.lookup_insert, if_pos rfl]; rfl
    | some v =>
        rw [UnorderedMap.insertNew, if_pos (Finmap.mem_of_lookup_eq_some h), h, if_pos rfl]; rfl
  · rw [UnorderedMap.lookup_insertNew_of_ne _ _ ha, if_neg ha]

/-- The cases of `instrumentedReallocate`: no record found, a light record moved
or kept, a closely watched block replaced (or the crash there), or kept. -/
inductive ReallocateCase (t : AllocationTable) (c : Caller) (oldMemory : Address)
    (newRequestedSize : UInt64) (real : RealCall → Address) : Option Outcome → Prop
  | untracked (t' : AllocationTable) :
      SameCounters t t' → t'.lightAllocationsByAddress = t.lightAllocationsByAddress →
      (Bypasses c ∨ t.Untracked oldMemory) →
      ReallocateCase t c oldMemory newRequestedSize real
        (some ⟨t', real .preferred, [.real .preferred (real .preferred)]⟩)
  | light (t' : AllocationTable) (alloc : LightAllocation) :
      ¬ Bypasses c → t.lightAllocationsByAddress.lookup oldMemory = some alloc →
      SameCounters t t' →
      t'.lightAllocationsByAddress =
        (if real .preferred ≠ oldMemory then
          rekey t.lightAllocationsByAddress oldMemory (real .preferred)
            { alloc with requestedSize := newRequestedSize.toUInt32, memory := real .preferred }
        else t.lightAllocationsByAddress.insert oldMemory
          { alloc with requestedSize := newRequestedSize.toUInt32 }) →
      ReallocateCase t c oldMemory newRequestedSize real
        (some ⟨t', real .preferred, [.real .preferred (real .preferred)]⟩)
  | crashed (alloc : CloselyWatchedAllocation) :
      FindsWatched t c oldMemory alloc → real (replacingCall env newRequestedSize) = 0 →
      ReallocateCase t c oldMemory newRequestedSize real none
  | replaced (t' : AllocationTable) (call : RealCall) (alloc : CloselyWatchedAllocation) :
      call = replacingCall env newRequestedSize → FindsWatched t c oldMemory alloc →
      Repaginates env alloc newRequestedSize →
      SameCounters { t with
        closelyWatchedAllocationsByAddress :=
          rekey t.closelyWatchedAllocationsByAddress oldMemory (real call)
            { alloc with requestedSize := newRequestedSize.toUInt32, memory := real call } } t' →
      t'.lightAllocationsByAddress = t.lightAllocationsByAddress →
      ReallocateCase t c oldMemory newRequestedSize real
        (some ⟨t', real call,
          [.real call (real call), .memcpy (real call) oldMemory alloc.requestedSize]⟩)
  | kept (t' : AllocationTable) (alloc : CloselyWatchedAllocation) :
      FindsWatched t c oldMemory alloc → ¬ Repaginates env alloc newRequestedSize →
      SameCounters { t with
        closelyWatchedAllocationsByAddress :=
          t.closelyWatchedAllocationsByAddress.insert oldMemory
            { alloc with requestedSize := newRequestedSize.toUInt32 } } t' →
      t'.lightAllocationsByAddress = t.lightAllocationsByAddress →
      ReallocateCase t c oldMemory newRequestedSize real (some ⟨t', oldMemory, []⟩)

theorem instrumentedReallocate_cases (t : AllocationTable) (c : Caller) (oldMemory : Address)
    (newRequestedSize : UInt64) (real : RealCall → Address) :
    ReallocateCase env t c oldMemory newRequestedSize real
      (t.instrumentedReallocate env c oldMemory newRequestedSize real) := by
  unfold instrumentedReallocate
  by_cases hbypass : Bypasses c
  · rw [if_pos hbypass]
    exact .untracked t (.refl t) rfl (.inl hbypass)
  rw [if_neg hbypass]
  dsimp only
  cases hlight : t.lightAllocationsByAddress.lookup oldMemory with
  | some alloc => exact .light _ alloc hbypass hlight (.of_info? rfl rfl fun _ => rfl) rfl
  | none =>
      cases hwatched : t.closelyWatchedAllocationsByAddress.lookup oldMemory with
      | none => exact .untracked _ (.of_info? rfl rfl fun _ => rfl) rfl (.inr ⟨hlight, hwatched⟩)
      | some alloc =>
          have hfinds : FindsWatched t c oldMemory alloc := ⟨hbypass, hlight, hwatched⟩
          dsimp only
          by_cases hpages : Repaginates env alloc newRequestedSize
          · rw [if_pos fun h => hpages (UInt32.toUInt64_inj.mp h)]
            split_ifs with hcrash
            · exact .crashed alloc hfinds hcrash.1
            · exact .replaced _ _ alloc rfl hfinds hpages (.of_info? rfl rfl fun _ => rfl) rfl
          · rw [if_neg (not_not.mpr (congrArg UInt32.toUInt64 (not_not.mp hpages)))]
            exact .kept _ alloc hfinds hpages (.of_info? rfl rfl fun _ => rfl) rfl

/-- The cases of `instrumentedFree`: `NULL`, no record found, a light record
erased, the end of a closely watched one. -/
inductive FreeCase (t : AllocationTable) (c : Caller) (memory : Address)
    (real : RealCall → Address) : AllocationTable × List Effect → Prop
  | null : memory = 0 → FreeCase t c memory real (t, [])
  | untracked (t' : AllocationTable) : memory ≠ 0 → SameCounters t t' →
      t'.lightAllocationsByAddress = t.lightAllocationsByAddress →
      (Bypasses c ∨ t.Untracked memory) →
      FreeCase t c memory real (t', [.real .preferred (real .preferred)])
  | light (t' : AllocationTable) : memory ≠ 0 → SameCounters t t' →
      ¬ Bypasses c → memory ∈ t.lightAllocationsByAddress →
      t'.lightAllocationsByAddress = t.lightAllocationsByAddress.erase memory →
      FreeCase t c memory real (t', [.real .preferred (real .preferred)])
  | watched (t' : AllocationTable) (alloc : CloselyWatchedAllocation) : memory ≠ 0 →
      FindsWatched t c memory alloc →
      t'.lightAllocationsByAddress = t.lightAllocationsByAddress →
      t'.closelyWatchedAllocationsByAddress =
        t.closelyWatchedAllocationsByAddress.erase memory →
      (t.Known alloc.watchedStackTraceInfo → RemovesWatched t t' memory alloc False) →
      FreeCase t c memory real (t', [.real .preferred (real .preferred)])

theorem instrumentedFree_cases (t : AllocationTable) (c : Caller) (memory : Address)
    (real : RealCall → Address) : FreeCase t c memory real (t.instrumentedFree c memory real) := by
  unfold instrumentedFree
  by_cases hnull : memory = 0
  · rw [if_pos hnull]
    exact .null hnull
  rw [if_neg hnull]
  dsimp only
  by_cases hbypass : Bypasses c
  · rw [if_pos hbypass]
    exact .untracked t hnull (.refl t) rfl (.inl hbypass)
  rw [if_neg hbypass]
  cases hlight : t.lightAllocationsByAddress.lookup memory with
  | some alloc =>
      exact .light _ hnull (.of_info? rfl rfl fun _ => rfl) hbypass
        (Finmap.mem_of_lookup_eq_some hlight) rfl
  | none =>
      cases hwatched : t.closelyWatchedAllocationsByAddress.lookup memory with
      | none =>
          exact .untracked _ hnull (.of_info? rfl rfl fun _ => rfl) rfl (.inr ⟨hlight, hwatched⟩)
      | some alloc =>
          dsimp only
          generalize hstats : ({ t with stats := _ } : AllocationTable) = t₁
          have hsame : SameCounters t t₁ := hstats ▸ .of_info? rfl rfl fun _ => rfl
          have hlight₁ : t₁.lightAllocationsByAddress = t.lightAllocationsByAddress := hstats ▸ rfl
          exact .watched _ alloc hnull ⟨hbypass, hlight, hwatched⟩ (by simp [finishWatched, hlight₁])
            (by simp [finishWatched, hsame.watched]) fun hknown => hsame.removesWatched hlight₁
              (finishWatched_spec (hsame.known _ hknown) id False (fun _ => rfl) (fun _ => rfl)
                fun _ => by simp)

/-- A light record after the first loop. -/
def lightAfter (now : UInt32) (alloc : Option LightAllocation) : Option LightAllocation :=
  alloc.bind fun r => if r.deadline < now then none else some r

/-- A closely watched record after the second loop. -/
def watchedAfter (now : UInt32) (alloc : Option CloselyWatchedAllocation) :
    Option CloselyWatchedAllocation :=
  alloc.bind fun r =>
    if r.deadline < now then
      match r.state with
      | .notYetSuspicious =>
          some { r with
            state := .suspicious
            deadline := now + env.closelyWatchedAllocationsAccessMaxInterval }
      | .suspicious => none
    else some r

/-- What the second loop reports of a record. -/
def leakOf (now : UInt32) (alloc : Option CloselyWatchedAllocation) : Option FoundLeak :=
  alloc.bind fun r =>
    if r.deadline < now ∧ r.state = .suspicious then
      some ⟨r.watchedStackTraceInfo, r.memory, r.requestedSize⟩
    else none

theorem patrolLight_spec (now : UInt32) (t : AllocationTable) (key : Address) :
    SameCounters t (t.patrolLight now key) ∧
      ∀ a, (t.patrolLight now key).lightAllocationsByAddress.lookup a =
        if a = key then lightAfter now (t.lightAllocationsByAddress.lookup a)
        else t.lightAllocationsByAddress.lookup a := by
  unfold patrolLight
  cases hkey : t.lightAllocationsByAddress.lookup key with
  | none =>
      refine ⟨.refl t, fun a => ?_⟩
      split_ifs with ha
      · rw [ha, hkey]
        rfl
      · rfl
  | some alloc =>
      dsimp only
      split_ifs with hdeadline
      · refine ⟨.of_info? rfl rfl fun w => info?_addSuspiciousFingerprint _ _ w, fun a => ?_⟩
        rw [UnorderedMap.lookup_erase_eq]
        split_ifs with ha
        · subst ha
          simp [hkey, lightAfter, hdeadline]
        · rfl
      · refine ⟨.refl t, fun a => ?_⟩
        split_ifs with ha
        · subst ha
          simp [hkey, lightAfter, hdeadline]
        · rfl

/-- The visit of a key, as the two properties of its record decide it. -/
theorem patrolWatched_cases (now : UInt32) (t : AllocationTable) (leaks : List FoundLeak)
    (key : Address) :
    (patrolWatched env now (t, leaks) key).2 =
        leaks ++ (leakOf now (t.closelyWatchedAllocationsByAddress.lookup key)).toList ∧
      (patrolWatched env now (t, leaks) key).1.lightAllocationsByAddress =
        t.lightAllocationsByAddress ∧
      ∀ a, (patrolWatched env now (t, leaks) key).1.closelyWatchedAllocationsByAddress.lookup a =
        if a = key then watchedAfter env now (t.closelyWatchedAllocationsByAddress.lookup a)
        else t.closelyWatchedAllocationsByAddress.lookup a := by
  unfold patrolWatched
  dsimp only
  cases hkey : t.closelyWatchedAllocationsByAddress.lookup key with
  | none =>
      refine ⟨by simp [leakOf], rfl, fun a => ?_⟩
      split_ifs with ha
      · rw [ha, hkey]
        rfl
      · rfl
  | some alloc =>
      dsimp only
      by_cases hdeadline : alloc.deadline < now
      · rw [if_pos hdeadline]
        cases hstate : alloc.state with
        | notYetSuspicious =>
            refine ⟨by simp [leakOf, hstate], rfl, fun a => ?_⟩
            rw [UnorderedMap.lookup_insert_eq]
            split_ifs with ha
            · subst ha
              simp [hkey, watchedAfter, hdeadline, hstate]
            · rfl
        | suspicious =>
            refine ⟨by simp [leakOf, hstate, hdeadline], by simp [finishWatched], fun a => ?_⟩
            simp only [finishWatched, modifyInfo_watched, UnorderedMap.lookup_erase_eq]
            split_ifs with ha
            · subst ha
              simp [hkey, watchedAfter, hdeadline, hstate]
            · rfl
      · rw [if_neg hdeadline]
        refine ⟨by simp [leakOf, hdeadline], rfl, fun a => ?_⟩
        split_ifs with ha
        · subst ha
          simp [hkey, watchedAfter, hdeadline]
        · rfl

/-- The visit of a key, as the counters see it. -/
inductive VisitCase (t : AllocationTable) (key : Address) : AllocationTable → Prop
  | kept : VisitCase t key t
  | moved (alloc alloc' : CloselyWatchedAllocation) :
      t.closelyWatchedAllocationsByAddress.lookup key = some alloc →
      alloc'.watchedStackTraceInfo = alloc.watchedStackTraceInfo →
      VisitCase t key { t with
        closelyWatchedAllocationsByAddress :=
          t.closelyWatchedAllocationsByAddress.insert key alloc' }
  | leaked (t' : AllocationTable) (alloc : CloselyWatchedAllocation) :
      t.closelyWatchedAllocationsByAddress.lookup key = some alloc →
      (t.Known alloc.watchedStackTraceInfo → RemovesWatched t t' key alloc True) →
      VisitCase t key t'

theorem patrolWatched_visit (now : UInt32) (s : AllocationTable × List FoundLeak)
    (key : Address) : VisitCase s.1 key (patrolWatched env now s key).1 := by
  obtain ⟨t, leaks⟩ := s
  unfold patrolWatched
  dsimp only
  cases hkey : t.closelyWatchedAllocationsByAddress.lookup key with
  | none => exact .kept
  | some alloc =>
      dsimp only
      split_ifs
      · cases alloc.state with
        | notYetSuspicious => exact .moved alloc _ hkey rfl
        | suspicious =>
            dsimp only
            exact .leaked _ alloc hkey fun hknown =>
              finishWatched_spec hknown _ True (fun _ => rfl) (fun _ => rfl) fun _ => rfl
      · exact .kept

/-- The first loop, over the whole map. -/
theorem foldl_patrolLight (now : UInt32) (t : AllocationTable) {order : List Address}
    (horder : UnorderedMap.Enumerates order t.lightAllocationsByAddress) :
    SameCounters t (order.foldl (patrolLight now) t) ∧
      ∀ a, (order.foldl (patrolLight now) t).lightAllocationsByAddress.lookup a =
        lightAfter now (t.lightAllocationsByAddress.lookup a) := by
  constructor
  · clear horder
    induction order generalizing t with
    | nil => exact .refl t
    | cons key rest ih => exact (patrolLight_spec now t key).1.trans (ih _)
  · intro a
    rw [foldl_visit (patrolLight now) (fun t a => t.lightAllocationsByAddress.lookup a)
      (fun _ => lightAfter now) _ _ order horder.nodup]
    · split_ifs with ha
      · rfl
      · rw [Finmap.lookup_eq_none.mpr fun h => ha ((horder.mem_iff a).mpr h)]
        rfl
    · intro t k
      rw [(patrolLight_spec now t k).2, if_pos rfl]
    · intro t k a ha
      rw [(patrolLight_spec now t k).2, if_neg ha]

/-- The second loop, over the whole map: every record is decided by its state
before the loop, and the leaks are listed in the order of the visits. -/
theorem foldl_patrolWatched (now : UInt32) (t : AllocationTable) {order : List Address}
    (horder : UnorderedMap.Enumerates order t.closelyWatchedAllocationsByAddress) :
    (order.foldl (patrolWatched env now) (t, [])).2 = order.filterMap (fun a =>
        leakOf now (t.closelyWatchedAllocationsByAddress.lookup a)) ∧
      (order.foldl (patrolWatched env now) (t, [])).1.lightAllocationsByAddress =
        t.lightAllocationsByAddress ∧
      ∀ a, (order.foldl (patrolWatched env now) (t, [])).1.closelyWatchedAllocationsByAddress.lookup
        a = watchedAfter env now (t.closelyWatchedAllocationsByAddress.lookup a) := by
  refine ⟨?_, ?_, fun a => ?_⟩
  · suffices h : ∀ (rest : List Address) (u : AllocationTable) (leaks : List FoundLeak),
        rest.Nodup → (∀ a ∈ rest, u.closelyWatchedAllocationsByAddress.lookup a =
          t.closelyWatchedAllocationsByAddress.lookup a) →
        (rest.foldl (patrolWatched env now) (u, leaks)).2 = leaks ++ rest.filterMap (fun a =>
          leakOf now (t.closelyWatchedAllocationsByAddress.lookup a)) by
      simpa using h order t [] horder.nodup fun _ _ => rfl
    intro rest
    induction rest with
    | nil => simp
    | cons key rest ih =>
        intro u leaks hnodup hsame
        have ⟨hkey, hrest⟩ := List.nodup_cons.mp hnodup
        have ⟨hleaks, _, hlookup⟩ := patrolWatched_cases env now u leaks key
        rw [List.foldl_cons, ← Prod.mk.eta (p := patrolWatched env now (u, leaks) key), ih _ _ hrest,
          hleaks, hsame key (by simp), List.filterMap_cons]
        · cases leakOf now (t.closelyWatchedAllocationsByAddress.lookup key) <;> simp
        · intro a ha
          have hne : a ≠ key := fun h => hkey (h ▸ ha)
          rw [hlookup, if_neg hne, hsame a (by simp [ha])]
  · suffices h : ∀ (rest : List Address) (s : AllocationTable × List FoundLeak),
        (rest.foldl (patrolWatched env now) s).1.lightAllocationsByAddress =
          s.1.lightAllocationsByAddress by
      exact h order (t, [])
    intro rest
    induction rest with
    | nil => exact fun _ => rfl
    | cons key rest ih => exact fun s => (ih _).trans (patrolWatched_cases env now s.1 s.2 key).2.1
  · rw [foldl_visit (patrolWatched env now)
      (fun s a => s.1.closelyWatchedAllocationsByAddress.lookup a)
      (fun _ => watchedAfter env now) _ _ order horder.nodup]
    · split_ifs with ha
      · rfl
      · rw [Finmap.lookup_eq_none.mpr fun h => ha ((horder.mem_iff a).mpr h)]
        rfl
    · intro s k
      rw [(patrolWatched_cases env now s.1 s.2 k).2.2, if_pos rfl]
    · intro s k a ha
      rw [(patrolWatched_cases env now s.1 s.2 k).2.2, if_neg ha]

/-- A whole pass: every record is decided by its state before the pass, and the
leaks are listed in the order of the visits. -/
theorem patrol_spec (t : AllocationTable) (time : UInt64) {lightOrder watchedOrder : List Address}
    (hlight : UnorderedMap.Enumerates lightOrder t.lightAllocationsByAddress)
    (hwatched : UnorderedMap.Enumerates watchedOrder t.closelyWatchedAllocationsByAddress) :
    (t.patrolThreadUpdateAllocationStates env time lightOrder watchedOrder).2.2 =
        watchedOrder.filterMap (fun a =>
          leakOf time.toUInt32 (t.closelyWatchedAllocationsByAddress.lookup a)) ∧
      ∀ a, (t.patrolThreadUpdateAllocationStates env time lightOrder
            watchedOrder).1.lightAllocationsByAddress.lookup a =
          lightAfter time.toUInt32 (t.lightAllocationsByAddress.lookup a) ∧
        (t.patrolThreadUpdateAllocationStates env time lightOrder
            watchedOrder).1.closelyWatchedAllocationsByAddress.lookup a =
          watchedAfter env time.toUInt32 (t.closelyWatchedAllocationsByAddress.lookup a) := by
  have ⟨hsame, hafter⟩ := foldl_patrolLight time.toUInt32 t hlight
  rw [← hsame.watched] at hwatched ⊢
  have ⟨hleaks, hkeep, hwatchedAfter⟩ := foldl_patrolWatched env time.toUInt32 _ hwatched
  exact ⟨hleaks, fun a => ⟨(congrArg _ hkeep).trans (hafter a), hwatchedAfter a⟩⟩

end AllocCounter.AllocationTable
