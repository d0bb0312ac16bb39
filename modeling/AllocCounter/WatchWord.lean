import AllocCounter.Monitor

/-!
# The watch word

All processes with the library map the file `/tmp/alloc-comm`, and
`alloc-counter-start` writes into it: `initCommMemory` of
`alloc-counter/comm-memory.cpp`, the constructor of `alloc-counter/init.cpp` and
the program `alloc-counter-start`. Their steps are interleaved in any way, and a
write of the word is one step. The file may be there from before, and nobody
removes it. A process that cannot open, write or map it is lost: it aborts, or
reads the word at `MAP_FAILED`, which the test for a null pointer lets through.
-/
namespace AllocCounter

open PatrolThread

/-- How far `initCommMemory` got. The word is a dummy until the file is mapped. -/
inductive CommPhase where
  | loaded
  | opened
  | written
  | mapped
  | lost
deriving DecidableEq

/-- How far a run of `alloc-counter-start` got. -/
inductive StarterPhase where
  | idle
  | opened
  | closed
  | failed
deriving DecidableEq

structure Process where
  phase : CommPhase
  monitored : Monitored

def Process.watchState (p : Process) : WatchState := p.monitored.system.watchState

def Process.setWatchState (p : Process) (value : WatchState) : Process :=
  { p with monitored := { p.monitored with
    system := { p.monitored.system with watchState := value } } }

/-- The process has written the word of the file. -/
def Process.Wrote (p : Process) : Prop := p.phase = .written ∨ p.phase = .mapped

/-- The file, which may be missing or empty, and who uses it. -/
structure World (P S : Type) where
  file : Option (Option WatchState)
  process : P → Process
  starter : S → StarterPhase

inductive WorldEvent (P S : Type) where
  | openFile (p : P) (succeeds : Bool)
  | writeFile (p : P) (succeeds : Bool)
  | mapFile (p : P) (succeeds : Bool)
  | act (p : P) (a : Action)
  | startOpen (s : S)
  | startClose (s : S) (succeeds : Bool)

namespace World

variable {P S : Type}

/-- A write into the file, which all who have mapped it see. -/
def store (w : World P S) (value : WatchState) : World P S :=
  { w with
    file := some (some value)
    process := fun q =>
      if (w.process q).phase = .mapped then (w.process q).setWatchState value else w.process q }

theorem phase_store (w : World P S) (value : WatchState) (q : P) :
    ((w.store value).process q).phase = (w.process q).phase := by
  unfold store Process.setWatchState
  dsimp only
  split_ifs <;> rfl

theorem watchState_store (w : World P S) (value : WatchState) (q : P) :
    ((w.store value).process q).watchState =
      if (w.process q).phase = .mapped then value else (w.process q).watchState := by
  unfold store Process.setWatchState Process.watchState
  dsimp only
  split_ifs <;> rfl

variable [DecidableEq P]

def setProcess (w : World P S) (p : P) (process : Process) : World P S :=
  { w with process := Function.update w.process p process }

theorem process_setProcess (w : World P S) (p q : P) (process : Process) :
    (w.setProcess p process).process q = if q = p then process else w.process q :=
  Function.update_apply w.process p process q

theorem phase_setProcess_monitored (w : World P S) (p q : P) (monitored : Monitored) :
    ((w.setProcess p { w.process p with monitored := monitored }).process q).phase =
      (w.process q).phase := by
  rw [process_setProcess]
  split_ifs with heq
  · rw [heq]
  · rfl

def goto (w : World P S) (p : P) (phase : CommPhase) : World P S :=
  w.setProcess p { w.process p with phase := phase }

theorem phase_goto (w : World P S) (p q : P) (phase : CommPhase) :
    ((w.goto p phase).process q).phase = if q = p then phase else (w.process q).phase := by
  rw [goto, process_setProcess]
  split_ifs <;> rfl

theorem monitored_goto (w : World P S) (p q : P) (phase : CommPhase) :
    ((w.goto p phase).process q).monitored = (w.process q).monitored := by
  rw [goto, process_setProcess]
  split_ifs with heq
  · rw [heq]
  · rfl

variable [DecidableEq S] (settings : P → PatrolSettings)
  (sort : (Leak → Leak → Bool) → List Leak → List Leak)

def setStarter (w : World P S) (s : S) (phase : StarterPhase) : World P S :=
  { w with starter := Function.update w.starter s phase }

/-- The patrol thread is spawned after the file is mapped. -/
def Ready (phase : CommPhase) : Action → Prop
  | .call _ => phase ≠ .lost
  | .enterLoop | .update _ _ _ _ | .makeReport _ => phase = .mapped

instance (phase : CommPhase) : (a : Action) → Decidable (Ready phase a)
  | .call _ => inferInstanceAs (Decidable (_ ≠ _))
  | .enterLoop | .update _ _ _ _ | .makeReport _ => inferInstanceAs (Decidable (_ = _))

/-- A mapping of an empty file would fault when it is read. `fwrite` only fills
the buffer, which `fclose` writes; what `fclose` returns is not checked. -/
def next (w : World P S) : WorldEvent P S → Option (World P S)
  | .openFile p succeeds =>
      if (w.process p).phase = .loaded then
        some (if succeeds then { w.goto p .opened with file := some (w.file.getD none) }
          else w.goto p .lost)
      else none
  | .writeFile p succeeds =>
      if (w.process p).phase = .opened then
        some (if succeeds then (w.goto p .written).store .notWatching else w.goto p .lost)
      else none
  | .mapFile p succeeds =>
      if (w.process p).phase = .written then
        match w.file, succeeds with
        | some (some value), true =>
            some (w.setProcess p { (w.process p).setWatchState value with phase := .mapped })
        | _, _ => some (w.goto p .lost)
      else none
  | .act p a =>
      if Ready (w.process p).phase a then
        ((w.process p).monitored.next (settings p) sort a).map fun monitored =>
          let w := w.setProcess p { w.process p with monitored := monitored }
          if a = .enterLoop ∧ (settings p).autoStartTime ≠ 0 then w.store .watching else w
      else none
  | .startOpen s =>
      if w.starter s = .idle then
        some (w.setStarter s (if w.file = none then .failed else .opened))
      else none
  | .startClose s succeeds =>
      if w.starter s = .opened then
        some (if succeeds then (w.setStarter s .closed).store .watching
          else w.setStarter s .closed)
      else none

/-- The watch word of a process changes by the steps of the file only. -/
def Allowed (w : World P S) : WorldEvent P S → Prop
  | .act p a => (∀ value, a ≠ .call (.setWatchState value)) ∧
      (w.process p).monitored.Allowed (settings p) a
  | _ => True

instance (w : World P S) : (e : WorldEvent P S) → Decidable (w.Allowed settings e)
  | .act p a =>
      have : Decidable (∀ value, a ≠ .call (.setWatchState value)) :=
        match a with
        | .call (.setWatchState value) => isFalse fun h => h value rfl
        | .call (.allocate _ _ _ _) | .call (.reallocate _ _ _ _ _) | .call (.free _ _ _ _ _)
        | .call (.patrol _ _ _) | .enterLoop | .update _ _ _ _ | .makeReport _ =>
            isTrue (by simp)
      inferInstanceAs (Decidable (_ ∧ _))
  | .openFile _ _ | .writeFile _ _ | .mapFile _ _ | .startOpen _ | .startClose _ _ =>
      inferInstanceAs (Decidable True)

def Step (w : World P S) (e : WorldEvent P S) (w' : World P S) : Prop :=
  w.Allowed settings e ∧ w.next settings sort e = some w'

structure Initial (w : World P S) : Prop where
  phase : ∀ p, (w.process p).phase = .loaded
  watchState : ∀ p, (w.process p).watchState = .notWatching
  monitored : ∀ p, (w.process p).monitored.Initial
  starter : ∀ s, w.starter s = .idle

/-- What an event writes into the file. -/
def written : WorldEvent P S → Option WatchState
  | .writeFile _ true => some .notWatching
  | .startClose _ true => some .watching
  | .act p .enterLoop => if (settings p).autoStartTime ≠ 0 then some .watching else none
  | _ => none

/-- A run of `alloc-counter-start`, or a patrol thread that starts by itself,
starts watching. -/
def Starts (e : WorldEvent P S) : Prop := written settings e = some .watching

/-- A process writes the word as it is initialized. -/
def Initializes (e : WorldEvent P S) : Prop := written settings e = some .notWatching

instance (e : WorldEvent P S) : Decidable (Starts settings e) := inferInstanceAs (Decidable (_ = _))

instance (e : WorldEvent P S) : Decidable (Initializes settings e) :=
  inferInstanceAs (Decidable (_ = _))

variable {settings sort} {w w' : World P S} {e : WorldEvent P S} {p q : P}

variable (settings sort) in
/-- The ways a step can go. -/
inductive StepCase (w : World P S) : WorldEvent P S → World P S → Prop
  | lost (e : WorldEvent P S) (p : P) : written settings e = none → (∀ q a, e ≠ .act q a) →
      (w.process p).phase ≠ .mapped → StepCase w e (w.goto p .lost)
  | opened (p : P) : (w.process p).phase = .loaded →
      StepCase w (.openFile p true) { w.goto p .opened with file := some (w.file.getD none) }
  | wrote (p : P) : (w.process p).phase = .opened →
      StepCase w (.writeFile p true) ((w.goto p .written).store .notWatching)
  | mapped (p : P) (value : WatchState) : (w.process p).phase = .written →
      w.file = some (some value) → StepCase w (.mapFile p true)
        (w.setProcess p { (w.process p).setWatchState value with phase := .mapped })
  | acted (p : P) (a : Action) (monitored : Monitored) :
      written settings (.act p a : WorldEvent P S) = none →
      (w.process p).monitored.Step (settings p) sort a monitored →
      monitored.system.watchState = (w.process p).watchState →
      StepCase w (.act p a) (w.setProcess p { w.process p with monitored := monitored })
  | autoStarted (p : P) (monitored : Monitored) : (settings p).autoStartTime ≠ 0 →
      (w.process p).monitored.Step (settings p) sort .enterLoop monitored →
      (w.process p).phase = .mapped → StepCase w (.act p .enterLoop)
        ((w.setProcess p { w.process p with monitored := monitored }).store .watching)
  | startOpened (s : S) (phase : StarterPhase) : StepCase w (.startOpen s) (w.setStarter s phase)
  | startFailed (s : S) : StepCase w (.startClose s false) (w.setStarter s .closed)
  | started (s : S) : StepCase w (.startClose s true) ((w.setStarter s .closed).store .watching)

/-- Below its calls a process keeps its watch word. -/
theorem watchState_next {settings : PatrolSettings} {m m' : Monitored} {a : Action}
    (h : m.next settings sort a = some m') (hcall : ∀ value, a ≠ .call (.setWatchState value))
    (hauto : ¬ (a = .enterLoop ∧ settings.autoStartTime ≠ 0)) :
    m'.system.watchState = m.system.watchState := by
  cases a with
  | call e =>
      obtain ⟨system, hsystem, rfl⟩ := Option.map_eq_some_iff.mp h
      cases e with
      | setWatchState value => exact absurd rfl (hcall value)
      | reallocate c oldMemory newRequestedSize answer capacity =>
          obtain ⟨o, -, rfl⟩ := Option.map_eq_some_iff.mp hsystem
          rfl
      | allocate | free | patrol => exact Option.some.inj hsystem ▸ rfl
  | enterLoop =>
      have htime : settings.autoStartTime = 0 := by simpa using hauto
      rw [Monitored.next] at h
      split_ifs at h
      rw [← Option.some.inj h]
      simp [Monitored.autoStarted, htime]
  | update time reportTime lightOrder watchedOrder =>
      rw [Monitored.next] at h
      split_ifs at h
      rw [← Option.some.inj h]
  | makeReport order =>
      rw [Monitored.next] at h
      cases hphase : m.monitor.phase with
      | starting | sleeping =>
          rw [hphase] at h
          cases h
      | reporting stats reportTime =>
          rw [hphase] at h
          rw [← Option.some.inj h]

theorem step_cases (h : w.Step settings sort e w') : StepCase settings sort w e w' := by
  obtain ⟨hallowed, hnext⟩ := h
  cases e with
  | openFile p succeeds =>
      rw [next] at hnext
      split_ifs at hnext with hphase hsucceeds
      · rw [← Option.some.inj hnext, hsucceeds]
        exact .opened p hphase
      · rw [← Option.some.inj hnext]
        exact .lost _ p rfl nofun (by simp [hphase])
  | writeFile p succeeds =>
      rw [next] at hnext
      split_ifs at hnext with hphase hsucceeds
      · rw [← Option.some.inj hnext, hsucceeds]
        exact .wrote p hphase
      · rw [← Option.some.inj hnext, eq_false_of_ne_true hsucceeds]
        exact .lost _ p rfl nofun (by simp [hphase])
  | mapFile p succeeds =>
      unfold next at hnext
      dsimp only at hnext
      by_cases hphase : (w.process p).phase = .written
      · rw [if_pos hphase] at hnext
        split at hnext
        · rename_i value hfile
          rw [← Option.some.inj hnext]
          exact .mapped p value hphase hfile
        · rw [← Option.some.inj hnext]
          exact .lost _ p rfl nofun (by simp [hphase])
      · rw [if_neg hphase] at hnext
        cases hnext
  | act p a =>
      rw [next] at hnext
      by_cases hready : Ready (w.process p).phase a
      · rw [if_pos hready] at hnext
        obtain ⟨monitored, hmonitored, hw'⟩ := Option.map_eq_some_iff.mp hnext
        dsimp only at hw'
        by_cases hauto : a = .enterLoop ∧ (settings p).autoStartTime ≠ 0
        · rw [if_pos hauto] at hw'
          obtain ⟨rfl, htime⟩ := hauto
          rw [← hw']
          exact .autoStarted p monitored htime ⟨hallowed.2, hmonitored⟩ hready
        · rw [if_neg hauto] at hw'
          rw [← hw']
          refine .acted p a monitored ?_ ⟨hallowed.2, hmonitored⟩
            (watchState_next hmonitored hallowed.1 hauto)
          cases a with
          | enterLoop => simpa [written] using hauto
          | call | update | makeReport => rfl
      · rw [if_neg hready] at hnext
        cases hnext
  | startOpen s =>
      rw [next] at hnext
      by_cases hphase : w.starter s = .idle
      · rw [if_pos hphase] at hnext
        rw [← Option.some.inj hnext]
        exact .startOpened s _
      · rw [if_neg hphase] at hnext
        cases hnext
  | startClose s succeeds =>
      rw [next] at hnext
      split_ifs at hnext with hphase hsucceeds
      · rw [← Option.some.inj hnext, hsucceeds]
        exact .started s
      · rw [← Option.some.inj hnext, eq_false_of_ne_true hsucceeds]
        exact .startFailed s

/-- Who has mapped the file sees its word, the others see the dummy; and the file
has a word once a process wrote it. -/
structure Coherent (w : World P S) : Prop where
  mapped : ∀ q, (w.process q).phase = .mapped → w.file = some (some (w.process q).watchState)
  dummy : ∀ q, (w.process q).phase ≠ .mapped → (w.process q).watchState = .notWatching
  file : ∀ q, (w.process q).Wrote → ∃ value, w.file = some (some value)

omit [DecidableEq P] [DecidableEq S] in
theorem coherent_store {value : WatchState}
    (h : ∀ q, (w.process q).phase ≠ .mapped → (w.process q).watchState = .notWatching) :
    (w.store value).Coherent where
  mapped q hq := by
    rw [phase_store] at hq
    rw [watchState_store, if_pos hq]
    rfl
  dummy q hq := by
    rw [phase_store] at hq
    rw [watchState_store, if_neg hq]
    exact h q hq
  file q _ := ⟨value, rfl⟩

omit [DecidableEq P] [DecidableEq S] in
/-- A step that neither writes nor maps the file. -/
theorem Coherent.other (h : w.Coherent)
    (hfile : ∀ value, w.file = some (some value) → w'.file = some (some value))
    (hwatch : ∀ q, (w'.process q).watchState = (w.process q).watchState)
    (hmapped : ∀ q, (w'.process q).phase = .mapped ↔ (w.process q).phase = .mapped)
    (hwrote : ∀ q, (w'.process q).Wrote → (w.process q).Wrote) : w'.Coherent where
  mapped q hq := hfile _ (hwatch q ▸ h.mapped q ((hmapped q).mp hq))
  dummy q hq := (hwatch q).trans (h.dummy q (mt (hmapped q).mpr hq))
  file q hq := by
    obtain ⟨value, hvalue⟩ := h.file q (hwrote q hq)
    exact ⟨value, hfile value hvalue⟩

omit [DecidableEq S] in
theorem watchState_goto (w : World P S) (p q : P) (phase : CommPhase) :
    ((w.goto p phase).process q).watchState = (w.process q).watchState :=
  congrArg (fun m => m.system.watchState) (monitored_goto w p q phase)

omit [DecidableEq S] in
/-- A process that goes on without having written the file. -/
theorem Coherent.goto (h : w.Coherent) {phase : CommPhase}
    (hphase : phase = .opened ∨ phase = .lost)
    (hp : (w.process p).phase ≠ .mapped) : (w.goto p phase).Coherent := by
  have hnot : ¬ (phase = .written ∨ phase = .mapped) := by
    rcases hphase with rfl | rfl <;> simp
  refine h.other (fun value => id) (watchState_goto w p · phase) (fun q => ?_) fun q hq => ?_
  · rw [phase_goto]
    split_ifs with heq
    · subst heq
      exact iff_of_false (fun hmapped => hnot (.inr hmapped)) hp
    · rfl
  · unfold Process.Wrote at hq ⊢
    rw [phase_goto] at hq
    split_ifs at hq with heq
    · exact absurd hq hnot
    · exact hq

theorem Coherent.step (h : w.Coherent) (hstep : w.Step settings sort e w') : w'.Coherent := by
  cases step_cases hstep with
  | lost _ p hnone hact hphase => exact h.goto (.inr rfl) hphase
  | opened p hphase =>
      have hopened : (w.goto p .opened).Coherent := h.goto (.inl rfl) (by simp [hphase])
      refine hopened.other (fun value hvalue => ?_) (fun q => rfl) (fun q => Iff.rfl) fun q => id
      have hfile : w.file = some (some value) := hvalue
      dsimp only
      rw [hfile]
      rfl
  | wrote p hphase =>
      refine coherent_store fun q hq => ?_
      rw [phase_goto] at hq
      rw [watchState_goto]
      refine h.dummy q fun hmapped => ?_
      split_ifs at hq with heq
      · rw [heq, hphase] at hmapped
        cases hmapped
      · exact hq hmapped
  | mapped p value hphase hfile =>
      constructor
      · intro q hq
        rw [process_setProcess] at hq ⊢
        split_ifs at hq ⊢ with heq
        · exact hfile
        · exact h.mapped q hq
      · intro q hq
        rw [process_setProcess] at hq ⊢
        split_ifs at hq ⊢ with heq
        · exact absurd rfl hq
        · exact h.dummy q hq
      · exact fun q _ => ⟨value, hfile⟩
  | acted p a monitored hnone hmonitored hwatch =>
      refine h.other (fun value => id) (fun q => ?_) (fun q => ?_) fun q hq => ?_
      · rw [process_setProcess]
        split_ifs with heq
        · rw [heq]
          exact hwatch
        · rfl
      · rw [phase_setProcess_monitored]
      · unfold Process.Wrote at hq ⊢
        rwa [phase_setProcess_monitored] at hq
  | autoStarted p monitored htime hmonitored hphase =>
      refine coherent_store fun q hq => ?_
      rw [phase_setProcess_monitored] at hq
      have hne : q ≠ p := fun heq => hq (heq ▸ hphase)
      rw [process_setProcess, if_neg hne]
      exact h.dummy q hq
  | startOpened s phase => exact ⟨h.mapped, h.dummy, h.file⟩
  | startFailed s => exact ⟨h.mapped, h.dummy, h.file⟩
  | started s => exact coherent_store h.dummy

/-- The events that write leave what they write, and the others leave the word. -/
theorem file_step (hstep : w.Step settings sort e w') :
    (∀ value, written settings e = some value → w'.file = some (some value)) ∧
      (written settings e = none → ∀ value, w.file = some (some value) →
        w'.file = some (some value)) := by
  cases step_cases hstep with
  | lost _ p hnone hact hphase =>
      rw [hnone]
      exact ⟨nofun, fun _ _ => id⟩
  | opened p hphase =>
      refine ⟨nofun, fun _ value hvalue => ?_⟩
      dsimp only
      rw [hvalue]
      rfl
  | wrote p hphase => exact ⟨fun value hvalue => congrArg some hvalue, nofun⟩
  | mapped p value hphase hfile => exact ⟨nofun, fun _ _ => id⟩
  | acted p a monitored hnone hmonitored hwatch =>
      rw [hnone]
      exact ⟨nofun, fun _ _ => id⟩
  | autoStarted p monitored htime hmonitored hphase =>
      have hwritten : written settings (.act p .enterLoop : WorldEvent P S) = some .watching :=
        if_pos htime
      rw [hwritten]
      exact ⟨fun value hvalue => congrArg some hvalue, nofun⟩
  | startOpened s phase => exact ⟨nofun, fun _ _ => id⟩
  | startFailed s => exact ⟨nofun, fun _ _ => id⟩
  | started s => exact ⟨fun value hvalue => congrArg some hvalue, nofun⟩

/-- A process writes the file before it maps it. -/
theorem wrote_step (hstep : w.Step settings sort e w') (h : (w'.process q).Wrote) :
    (w.process q).Wrote ∨ Initializes settings e := by
  unfold Process.Wrote at h ⊢
  cases step_cases hstep with
  | lost _ p hnone hact hphase =>
      rw [phase_goto] at h
      split_ifs at h
      · simp at h
      · exact .inl h
  | opened p hphase =>
      change ((w.goto p .opened).process q).phase = .written ∨ _ = CommPhase.mapped at h
      rw [phase_goto] at h
      split_ifs at h
      · simp at h
      · exact .inl h
  | wrote p hphase => exact .inr rfl
  | mapped p value hphase hfile =>
      rw [process_setProcess] at h
      split_ifs at h with heq
      · exact .inl (.inl (heq ▸ hphase))
      · exact .inl h
  | acted p a monitored hnone hmonitored hwatch =>
      rw [phase_setProcess_monitored] at h
      exact .inl h
  | autoStarted p monitored htime hmonitored hphase =>
      rw [phase_store, phase_setProcess_monitored] at h
      exact .inl h
  | startOpened s phase => exact .inl h
  | startFailed s => exact .inl h
  | started s =>
      rw [phase_store] at h
      exact .inl h

section Run

variable (x : Execution (Initial (P := P) (S := S)) (Step settings sort))

theorem coherent_at : ∀ n ≤ x.length, (x.state n).Coherent := by
  refine x.holds_at _ ?_ fun n hn h => h.step (x.steps n hn)
  have hloaded := x.starts.phase
  exact ⟨fun q hq => by simp [hloaded] at hq, fun q _ => x.starts.watchState q,
    fun q hq => by simp [Process.Wrote, hloaded] at hq⟩

/-- Once a process wrote the file, its word says whether a start came after the
last initialization. -/
theorem file_at : ∀ n ≤ x.length, ∀ q, ((x.state n).process q).Wrote →
    ((x.state n).file = some (some .watching) ↔ Execution.Since
      (fun m => Starts settings (x.event m)) (fun m => Initializes settings (x.event m)) n) := by
  refine x.holds_at _ ?_ fun n hn h => ?_
  · intro q hq
    simp [Process.Wrote, x.starts.phase] at hq
  intro q hq
  obtain ⟨hwrites, hkeeps⟩ := file_step (x.steps n hn)
  rw [Execution.since_succ_iff]
  cases hwritten : written settings (x.event n) with
  | some value =>
      rw [hwrites value hwritten]
      unfold Starts Initializes
      rw [hwritten]
      cases value <;> simp
  | none =>
      have hwrote := (wrote_step (x.steps n hn) hq).resolve_right (by simp [Initializes, hwritten])
      obtain ⟨value, hvalue⟩ := (coherent_at x n hn.le).file q hwrote
      rw [hkeeps hwritten value hvalue, ← hvalue, h q hwrote]
      simp [Starts, Initializes, hwritten]

/-- A process watches exactly when it has mapped the file and a start, by whoever it
was made, came after the last initialization of a process. -/
theorem watching_iff : ∀ n ≤ x.length, ∀ p, ((x.state n).process p).watchState = .watching ↔
    ((x.state n).process p).phase = .mapped ∧ ∃ m < n, Starts settings (x.event m) ∧
      ∀ k, m < k → k < n → ¬ Initializes settings (x.event k) := by
  intro n hn p
  have hcoherent := coherent_at x n hn
  have hfile := file_at x n hn p
  constructor
  · intro hwatch
    by_cases hphase : ((x.state n).process p).phase = .mapped
    · refine ⟨hphase, (hfile (.inr hphase)).mp ?_⟩
      rw [hcoherent.mapped p hphase, hwatch]
    · rw [hcoherent.dummy p hphase] at hwatch
      cases hwatch
  · rintro ⟨hphase, hsince⟩
    have hword := (hfile (.inr hphase)).mpr hsince
    rw [hcoherent.mapped p hphase] at hword
    exact Option.some.inj (Option.some.inj hword)

end Run

/-- Two processes start with an old word in the file, the second one while watching
is started with the file open. Then watching is started again, and the first
process allocates and frees. -/
def twoProcessEvents : List (WorldEvent Bool ℕ) :=
  [.openFile false true, .writeFile false true, .mapFile false true, .startOpen 0,
    .openFile true true, .startClose 0 true, .writeFile true true, .mapFile true true,
    .startOpen 1, .startClose 1 true,
    .act false (.call (.allocate (System.callerAt 0) ⟨8, 1, 7, .unnecessary⟩ 0x1000 8)),
    .act false (.call (.free (System.callerAt 1) 0x1000 true 0 0))]

def twoProcesses : World Bool ℕ :=
  ⟨some (some .watching), fun _ => ⟨.loaded, Monitored.start⟩, fun _ => .idle⟩

theorem initial_twoProcesses : twoProcesses.Initial :=
  ⟨fun _ => rfl, fun _ => rfl, fun _ => Monitored.initial_start, fun _ => rfl⟩

def twoProcessRun : Execution (Initial (P := Bool) (S := ℕ)) (Step (fun _ => Monitored.reportSettings)
    fun lt l => l.insertionSort fun a b => lt b a = false) :=
  Execution.ofEvents twoProcessEvents (.startOpen 0) initial_twoProcesses (by decide +kernel)

theorem watching_iff_twoProcessRun :
    ((twoProcessRun.state 7).process false).watchState = .watching ↔
      ((twoProcessRun.state 7).process false).phase = .mapped ∧ ∃ m < 7,
        Starts (fun _ => Monitored.reportSettings) (twoProcessRun.event m) ∧ ∀ k, m < k → k < 7 →
          ¬ Initializes (fun _ => Monitored.reportSettings) (twoProcessRun.event k) :=
  watching_iff twoProcessRun 7 (by decide) false

example : ((twoProcessRun.state 6).process false).watchState = .watching ∧
    ((twoProcessRun.state 7).process false).watchState = .notWatching ∧
    ((twoProcessRun.state 10).process false).watchState = .watching := by decide +kernel

end World

end AllocCounter
