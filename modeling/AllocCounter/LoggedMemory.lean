import AllocCounter.KernelRanges
import AllocCounter.MemoryLog
import AllocCounter.RoundedClocks

/-!
# From the calls to the memory log

The wrapper writes a line for the calls of `mmap` and `munmap` that it registers,
and `generate_memory_log` reads the lines back and adds up slices. Neither the
text between them nor the two memory maps appear in what comes out: at each time
the printed number is the number of addresses whose last successful call mapped
them, from a stack with a selected id.
-/
namespace AllocCounter.MmapCounter

open NumberTexts FirstAppearances ParseMmapLog

namespace Call

def time : Call → ℚ≥0
  | .mmap c => c.time
  | .munmap c => c.time

/-- The wrapper has to follow the call. -/
def Effective : Call → Prop
  | .mmap c => c.Registers
  | .munmap c => c.inLibrary = false ∧ c.succeeds = true

instance : (call : Call) → Decidable call.Effective
  | .mmap _ => inferInstanceAs (Decidable (_ ∧ _ ∧ _))
  | .munmap _ => inferInstanceAs (Decidable (_ ∧ _))

instance (call : Call) (x : ℤ) : Decidable (call.Covers x) := inferInstanceAs (Decidable (_ ∧ _))

end Call

/-- The mapping that an address is in after the calls. The last call on the
address decides. -/
def mappingAt (calls : List Call) (x : ℤ) : Option MmapCall :=
  (calls.reverse.find? fun call => call.Effective ∧ call.Covers x).bind Call.registered

/-- The id of the stack of a mapping. -/
def stackId (calls : List Call) (c : MmapCall) : ℕ :=
  rank ((captured calls).map StackTrace.hash) c.stackTrace.hash

/-- The addresses of mappings with a selected stack id. -/
def selectedBy (stackFilter : ℕ → Bool) (calls before : List Call) : Set ℤ :=
  {x | ∃ c ∈ mappingAt before x, stackFilter (stackId calls c) = true}

/-- The call is to be found in the log. -/
def Reported (before : List Call) : Call → Prop
  | .mmap c => c.Registers
  | .munmap c => (Call.munmap c).Effective ∧
      ∃ x, (Call.munmap c).Covers x ∧ mappingAt before x ≠ none

/-- An ordinary call of less than 4 GiB, which maps nothing over another mapping;
if it is to be found in the log, its pointer and its clock can be read there. -/
def Loggable (before : List Call) : Call → Prop
  | .mmap c => c.Registers → (Call.mmap c).Ordinary ∧ pageRounded c.len < 2 ^ 32 ∧
      PlainClock c.time ∧ ∀ x, (Call.mmap c).Covers x → mappingAt before x = none
  | .munmap c => c.inLibrary = false → (Call.munmap c).Ordinary ∧
      pageRounded c.length < 2 ^ 32 ∧
      (Reported before (.munmap c) → c.addr ≠ 0 ∧ PlainClock c.time)

variable {calls : List Call} {call : Call}

theorem mappingAt_concat (calls : List Call) (call : Call) (x : ℤ) :
    mappingAt (calls ++ [call]) x =
      if call.Effective ∧ call.Covers x then call.registered else mappingAt calls x := by
  unfold mappingAt
  rw [List.reverse_append]
  split_ifs with h <;> simp [h]

theorem mem_captured_of_mappingAt {x : ℤ} {c : MmapCall} (h : mappingAt calls x = some c) :
    c.stackTrace ∈ captured calls := by
  obtain ⟨call, hfind, hregistered⟩ := Option.bind_eq_some_iff.mp h
  have hmem : call ∈ calls := List.mem_reverse.mp (List.mem_of_find?_eq_some hfind)
  refine List.mem_filterMap.mpr ⟨call, hmem, ?_⟩
  cases call with
  | munmap => cases hregistered
  | mmap d =>
      simp only [Call.registered] at hregistered
      split_ifs at hregistered with hregisters
      rw [Call.captured, if_pos hregisters, Option.some.inj hregistered]

/-- Later calls do not change the id of a mapping. -/
theorem stackId_append {c : MmapCall} (hc : c.stackTrace ∈ captured calls) (after : List Call) :
    stackId (calls ++ after) c = stackId calls c := by
  have hsplit : captured (calls ++ after) = captured calls ++ captured after :=
    List.filterMap_append ..
  rw [stackId, hsplit, List.map_append, rank_append (List.mem_map_of_mem hc), stackId]

theorem map_stackId_append {some : List Call} (h : some.Sublist calls) (after : List Call) (x : ℤ) :
    (mappingAt some x).map (stackId (calls ++ after)) = (mappingAt some x).map (stackId calls) := by
  refine Option.map_congr fun c hc => stackId_append ?_ after
  exact (h.filterMap _).subset (mem_captured_of_mappingAt hc)

/-- A point of the calls with one more call is a point of them, or it is the end. -/
theorem exists_point_concat {P : List Call → Call → Prop} :
    (∃ before c after, calls ++ [call] = before ++ c :: after ∧ P before c) ↔
      (∃ before c after, calls = before ++ c :: after ∧ P before c) ∨ P calls call := by
  constructor
  · rintro ⟨before, c, after, heq, hP⟩
    rcases after.eq_nil_or_concat' with rfl | ⟨after, last, rfl⟩
    · obtain ⟨rfl, hlast⟩ := List.append_inj' heq rfl
      exact .inr (List.singleton_inj.mp hlast ▸ hP)
    · rw [← List.cons_append, ← List.append_assoc] at heq
      exact .inl ⟨before, c, after, (List.append_inj' heq rfl).1, hP⟩
  · rintro (⟨before, c, after, rfl, hP⟩ | hP)
    · exact ⟨before, c, after ++ [call], by simp, hP⟩
    · exact ⟨calls, call, [], rfl, hP⟩

theorem parseMmapLog_concat (lines : List LogLine) (line : LogLine) :
    parseMmapLog (eventLogText (lines ++ [line])) =
      (parseMmapLog (eventLogText lines)).bind fun events =>
        (parseLine (lines.length + 1) line.text).map fun event => events ++ [event] := by
  rw [parseMmapLog_eventLogText, parseMmapLog_eventLogText, List.zipIdx_append, List.mapM_append,
    List.zipIdx_singleton, Nat.add_comm]
  cases (lines.zipIdx 1).mapM fun e => parseLine e.2 e.1.text with
  | none => rfl
  | some events => cases h : parseLine (lines.length + 1) line.text <;> simp [h]

/-- The run of the calls ends, its log is read as the events, and map and events
agree with the calls. -/
structure LogRead (calls : List Call) (w : Wrapper) (events : List ParseMmapLog.Event) :
    Prop where
  run : Wrapper.run 4096 calls = some w
  replays : w.Replays
  covers : ∀ x, w.memoryMap.Covers x ↔ mappingAt calls x ≠ none
  parsed : parseMmapLog (eventLogText w.eventLog) = some events
  valid : ParseMmapLog.Valid events
  times : ∀ t, (∃ e ∈ events, e.time = t) ↔ ∃ before call after,
    calls = before ++ call :: after ∧ Reported before call ∧ rounded call.time = t
  owner : ∀ x, (ownerAfter events x).map (fun a => a.stackTraceId) =
    (mappingAt calls x).map (stackId calls)
  ownerUpTo : ∀ t x, (ownerAfter (events.filter fun e => e.time ≤ t) x).map
      (fun a => a.stackTraceId) =
    (mappingAt (calls.filter fun c => rounded c.time ≤ t) x).map (stackId calls)

theorem logRead_nil : LogRead [] {} [] where
  run := rfl
  replays := Wrapper.replays_initial
  covers x := by simp [MemoryMap.Covers, MemoryMap.empty, mappingAt]
  parsed := rfl
  valid := valid_nil
  times t := by simp
  owner _ := rfl
  ownerUpTo _ _ := rfl

variable {w w' : Wrapper} {events new : List ParseMmapLog.Event}

/-- The times in the log do not run ahead of the clock. -/
theorem LogRead.time_le (h : LogRead calls w events)
    (hclock : ∀ c ∈ calls, c.time ≤ call.time) {e : ParseMmapLog.Event} (he : e ∈ events) :
    e.time ≤ rounded call.time := by
  obtain ⟨before, c, after, rfl, -, htime⟩ := (h.times e.time).mp ⟨e, he, rfl⟩
  exact htime ▸ rounded_mono (hclock c (by simp))

theorem LogRead.concat (h : LogRead calls w events) (hclock : ∀ c ∈ calls, c.time ≤ call.time)
    (hnext : w.next 4096 call = some w') (hreplays : w'.Replays)
    (hcovers : ∀ x, w'.memoryMap.Covers x ↔ mappingAt (calls ++ [call]) x ≠ none)
    (hparsed : parseMmapLog (eventLogText w'.eventLog) = some (events ++ new))
    (hvalid : ParseMmapLog.Valid (events ++ new)) (htime : ∀ e ∈ new, e.time = rounded call.time)
    (hreported : new ≠ [] ↔ Reported calls call)
    (howner : ∀ x, (ownerAfter (events ++ new) x).map (fun a => a.stackTraceId) =
      (mappingAt (calls ++ [call]) x).map (stackId (calls ++ [call]))) :
    LogRead (calls ++ [call]) w' (events ++ new) where
  run := by rw [Wrapper.run_concat, h.run, Option.bind_some, hnext]
  replays := hreplays
  covers := hcovers
  parsed := hparsed
  valid := hvalid
  times := by
    intro t
    have hlast : (∃ e ∈ new, e.time = t) ↔ Reported calls call ∧ rounded call.time = t := by
      rw [← hreported]
      constructor
      · rintro ⟨e, he, rfl⟩
        exact ⟨List.ne_nil_of_mem he, (htime e he).symm⟩
      · rintro ⟨hne, rfl⟩
        obtain ⟨e, he⟩ := List.exists_mem_of_ne_nil new hne
        exact ⟨e, he, htime e he⟩
    rw [exists_point_concat (P := fun before c => Reported before c ∧ rounded c.time = t),
      ← h.times t, ← hlast]
    simp only [List.mem_append, or_and_right, exists_or]
  owner := howner
  ownerUpTo := by
    intro t x
    by_cases hle : rounded call.time ≤ t
    · have hevents : (events ++ new).filter (fun e => e.time ≤ t) = events ++ new := by
        refine List.filter_eq_self.mpr fun e he => decide_eq_true ?_
        rcases List.mem_append.mp he with he | he
        · exact (h.time_le hclock he).trans hle
        · exact (htime e he).trans_le hle
      have hcalls : (calls ++ [call]).filter (fun c => rounded c.time ≤ t) = calls ++ [call] := by
        refine List.filter_eq_self.mpr fun c hc => decide_eq_true ?_
        rcases List.mem_append.mp hc with hc | hc
        · exact (rounded_mono (hclock c hc)).trans hle
        · exact List.mem_singleton.mp hc ▸ hle
      rw [hevents, hcalls, howner]
    · have hnone : new.filter (fun e => e.time ≤ t) = [] :=
        List.filter_eq_nil_iff.mpr fun e he => by simpa [htime e he] using hle
      have hearlier : (calls ++ [call]).filter (fun c => rounded c.time ≤ t) =
          calls.filter fun c => rounded c.time ≤ t := by
        rw [List.filter_append, List.filter_cons_of_neg (by simpa using hle), List.filter_nil,
          List.append_nil]
      rw [List.filter_append, hnone, List.append_nil, hearlier, h.ownerUpTo,
        map_stackId_append List.filter_sublist]

/-- A call that the wrapper does not follow leaves everything as it is. -/
theorem LogRead.ignored (h : LogRead calls w events) (hclock : ∀ c ∈ calls, c.time ≤ call.time)
    (hnext : w.next 4096 call = some w) (heffective : ¬ call.Effective) :
    LogRead (calls ++ [call]) w events := by
  have hmapping : mappingAt (calls ++ [call]) = mappingAt calls := by
    funext x
    rw [mappingAt_concat, if_neg fun h => heffective h.1]
  have hreported : ¬ Reported calls call := by
    cases call with
    | mmap c => exact heffective
    | munmap c => exact fun h => heffective h.1
  have hconcat : LogRead (calls ++ [call]) w (events ++ []) :=
    h.concat hclock hnext h.replays (by simpa [hmapping] using h.covers)
      (by simpa using h.parsed) (by simpa using h.valid) (by simp) (by simpa using hreported)
      fun x => by
        rw [List.append_nil, hmapping, h.owner, map_stackId_append (List.Sublist.refl calls)]
  rwa [List.append_nil] at hconcat

/-- A mapping is added to the map, and its line to the log. -/
theorem LogRead.mmap (h : LogRead calls w events) {c : MmapCall}
    (hclock : ∀ d ∈ calls, d.time ≤ (Call.mmap c).time) (hregisters : c.Registers)
    (hloggable : Loggable calls (.mmap c)) :
    ∃ w' events', LogRead (calls ++ [.mmap c]) w' events' := by
  obtain ⟨hordinary, hsmall, hplain, hfree⟩ := hloggable hregisters
  obtain ⟨w', hnext⟩ := h.replays.registers hordinary hsmall
  have hret : c.ret ≠ 0 := hregisters.2.1
  obtain ⟨hreplays, hcovers⟩ := h.replays.mmap hordinary hsmall hret
    (fun x hx => by simp [h.covers, hfree x hx]) hnext
  have hrun : Wrapper.run 4096 (calls ++ [.mmap c]) = some w' := by
    rw [Wrapper.run_concat, h.run, Option.bind_some, hnext]
  have hstep := hnext
  rw [Wrapper.next, Wrapper.mmap, if_pos hregisters] at hstep
  obtain ⟨_, _, id, -, -, -, hlog, hcase⟩ := Wrapper.registerMapping_spec hstep
  -- the id in the line is the number of the stack
  have hid : id = stackId (calls ++ [.mmap c]) c := by
    have hids := (Wrapper.books_run _ hrun).1.ids
    have hlast : w'.stackTraceIds = w.stackTraceIds ++ [id] := by
      simp [Wrapper.stackTraceIds, hlog, LogLine.stackTraceId?]
    have hcaptured : captured (calls ++ [.mmap c]) = captured calls ++ [c.stackTrace] := by
      rw [captured_concat, Call.captured, if_pos hregisters, Option.toList_some]
    rw [hlast, hcaptured, List.map_append, List.map_append, List.map_singleton,
      List.map_singleton] at hids
    rw [stackId, hcaptured, List.map_append, List.map_singleton]
    exact List.singleton_inj.mp (List.append_inj' hids rfl).2
  have hlen : c.len ≠ 0 := hordinary.2.2.1
  have hparse : parseLine (w.eventLog.length + 1) (LogLine.map c.time c.ret c.len id).text =
      some (.map (rounded c.time) c.ret.toNat (pageRounded c.len) id (w.eventLog.length + 1)) := by
    rw [LogLine.parseLine_map, if_pos ⟨(fixed_iff _).mpr hplain, hret, hlen⟩,
      float_general ((fixed_iff _).mpr hplain)]
  generalize hevent : (.map (rounded c.time) c.ret.toNat (pageRounded c.len) id
    (w.eventLog.length + 1) : ParseMmapLog.Event) = event at hparse
  have hparsed : parseMmapLog (eventLogText w'.eventLog) = some (events ++ [event]) := by
    rw [hlog, parseMmapLog_concat, h.parsed, Option.bind_some, hparse, Option.map_some]
  have htime : event.time = rounded (Call.mmap c).time := by rw [← hevent]; rfl
  have hmapping : ∀ x, mappingAt (calls ++ [.mmap c]) x =
      if (Call.mmap c).Covers x then some c else mappingAt calls x := by
    intro x
    have heffective : (Call.mmap c).Effective := hregisters
    simp only [mappingAt_concat, heffective, true_and, Call.registered, if_pos hregisters]
  refine ⟨w', events ++ [event], h.concat hclock hnext hreplays (fun x => ?_) hparsed ?_ ?_ ?_
    fun x => ?_⟩
  · rw [hcovers, hmapping, h.covers]
    by_cases hx : (Call.mmap c).Covers x <;> simp [hx]
  · refine valid_concat.mpr ⟨h.valid, fun e he => ?_, ?_, ?_⟩
    · exact htime ▸ h.time_le hclock he
    · exact hevent ▸ hordinary.length_le.2
    · exact hevent ▸ trivial
  · exact fun e he => List.mem_singleton.mp he ▸ htime
  · exact ⟨fun _ => hregisters, fun _ => List.cons_ne_nil _ _⟩
  · rw [ownerAfter_concat, hmapping, ← hevent]
    have hcall : (ParseMmapLog.Event.map (rounded c.time) c.ret.toNat (pageRounded c.len) id
        (w.eventLog.length + 1)).call.Covers x ↔ (Call.mmap c).Covers x := Iff.rfl
    simp only [hcall]
    split_ifs with hx
    · exact congrArg some hid
    · rw [h.owner, map_stackId_append (List.Sublist.refl calls)]

/-- The wrapper finds an unmapping known exactly if it touches a slice. -/
theorem registerUnmap_known_iff (h : w.Replays) {c : MunmapCall}
    (hordinary : (Call.munmap c).Ordinary) (hsmall : pageRounded c.length < 2 ^ 32) {known : Bool}
    {m : MemoryMap InternedStackTrace}
    (hunmap : w.memoryMap.registerUnmap .lp64 (toIntptr c.addr)
      (roundUpToPageMultiple 4096 c.length).toNat = some (known, m)) :
    known = true ↔ ∃ x, (Call.munmap c).Covers x ∧ w.memoryMap.Covers x := by
  obtain ⟨hstart, hsize, hrange⟩ := hordinary.range_eq hsmall
  simp only [Call.pointer, Call.length] at hstart hsize hrange
  rw [hstart, hsize] at hunmap
  obtain ⟨b, m', hspec, -, -, -, hknown⟩ := MemoryMap.registerUnmap_spec h.wellFormed
    c.addr.toNat (pageRounded c.length) hordinary.length_le.2 hrange
  obtain ⟨rfl, -⟩ := Prod.mk.inj (Option.some.inj (hunmap.symm.trans hspec))
  rw [hknown, ne_eq, h.wellFormed.tiled.cutOff_eq_nil]
  simp only [not_forall, exists_prop, MemoryMap.covers_iff, MemoryMap.owner, Call.Covers,
    Call.pointer, Call.length, and_assoc]

/-- An unmapping is taken from the map, and it gets a line if it took something. -/
theorem LogRead.munmap (h : LogRead calls w events) {c : MunmapCall}
    (hclock : ∀ d ∈ calls, d.time ≤ (Call.munmap c).time) (hlib : c.inLibrary = false)
    (hloggable : Loggable calls (.munmap c)) :
    ∃ w' events', LogRead (calls ++ [.munmap c]) w' events' := by
  obtain ⟨hordinary, hsmall, hplain⟩ := hloggable hlib
  have heffective : (Call.munmap c).Effective := hordinary.1
  obtain ⟨w', hnext⟩ := h.replays.registers hordinary hsmall
  obtain ⟨hreplays, hcovers⟩ := h.replays.munmap hordinary hsmall hnext
  obtain ⟨known, hunmap, hlog⟩ := Wrapper.munmap_registers hlib heffective.2 hnext
  have hknown := registerUnmap_known_iff h.replays hordinary hsmall hunmap
  simp only [h.covers] at hknown
  have hmapping : ∀ x, mappingAt (calls ++ [.munmap c]) x =
      if (Call.munmap c).Covers x then none else mappingAt calls x := by
    intro x
    simp only [mappingAt_concat, heffective, true_and, Call.registered]
  have hcovers' : ∀ x, w'.memoryMap.Covers x ↔ mappingAt (calls ++ [.munmap c]) x ≠ none := by
    intro x
    rw [hcovers, hmapping, h.covers]
    by_cases hx : (Call.munmap c).Covers x <;> simp [hx]
  cases known with
  | false =>
      -- nothing was mapped in the range, and nothing is to be found in the log
      have hnone : ¬ ∃ x, (Call.munmap c).Covers x ∧ mappingAt calls x ≠ none :=
        fun hex => Bool.false_ne_true (hknown.mpr hex)
      have hsame : mappingAt (calls ++ [.munmap c]) = mappingAt calls := by
        funext x
        rw [hmapping]
        split_ifs with hx
        · exact (not_not.mp fun hne => hnone ⟨x, hx, hne⟩).symm
        · rfl
      refine ⟨w', events ++ [], h.concat hclock hnext hreplays hcovers' ?_ ?_ (by simp)
        ⟨fun hne => absurd rfl hne, fun hreported => absurd hreported.2 hnone⟩ fun x => ?_⟩
      · simpa [hlog] using h.parsed
      · simpa using h.valid
      · rw [List.append_nil, hsame, h.owner, map_stackId_append (List.Sublist.refl calls)]
  | true =>
      have hreported : Reported calls (.munmap c) := ⟨heffective, hknown.mp rfl⟩
      obtain ⟨haddr, hfixed⟩ := hplain hreported
      have hparse : parseLine (w.eventLog.length + 1) (LogLine.unmap c.time c.addr c.length).text =
          some (.unmap (rounded c.time) c.addr.toNat (pageRounded c.length)
            (w.eventLog.length + 1)) := by
        rw [LogLine.parseLine_unmap, if_pos ⟨(fixed_iff _).mpr hfixed, haddr, hordinary.2.2.1⟩,
          float_general ((fixed_iff _).mpr hfixed)]
      generalize hevent : (.unmap (rounded c.time) c.addr.toNat (pageRounded c.length)
        (w.eventLog.length + 1) : ParseMmapLog.Event) = event at hparse
      have hparsed : parseMmapLog (eventLogText w'.eventLog) = some (events ++ [event]) := by
        rw [hlog, if_pos rfl, parseMmapLog_concat, h.parsed, Option.bind_some, hparse,
          Option.map_some]
      have htime : event.time = rounded (Call.munmap c).time := by rw [← hevent]; rfl
      refine ⟨w', events ++ [event], h.concat hclock hnext hreplays hcovers' hparsed ?_ ?_
        ⟨fun _ => hreported, fun _ => List.cons_ne_nil _ _⟩ fun x => ?_⟩
      · refine valid_concat.mpr ⟨h.valid, fun e he => ?_, ?_, ?_⟩
        · exact htime ▸ h.time_le hclock he
        · exact hevent ▸ hordinary.length_le.2
        · obtain ⟨x, hx, hmapped⟩ := hreported.2
          have howner := h.owner x
          refine hevent ▸ ⟨x, hx.1, hx.2, fun hnone => hmapped ?_⟩
          rwa [hnone, Option.map_none, eq_comm, Option.map_eq_none_iff] at howner
      · exact fun e he => List.mem_singleton.mp he ▸ htime
      · rw [ownerAfter_concat, hmapping, ← hevent]
        have hcall : (ParseMmapLog.Event.unmap (rounded c.time) c.addr.toNat
            (pageRounded c.length) (w.eventLog.length + 1)).call.Covers x ↔
              (Call.munmap c).Covers x := Iff.rfl
        simp only [hcall]
        split_ifs with hx
        · rfl
        · rw [h.owner, map_stackId_append (List.Sublist.refl calls)]

/-- Every run of loggable calls ends, and its log can be read. -/
theorem exists_logRead (calls : List Call)
    (hcalls : ∀ before call after, calls = before ++ call :: after → Loggable before call)
    (hclock : calls.Pairwise fun c d => c.time ≤ d.time) :
    ∃ w events, LogRead calls w events := by
  induction calls using List.reverseRecOn with
  | nil => exact ⟨{}, [], logRead_nil⟩
  | append_singleton calls call ih =>
      obtain ⟨hbefore, -, hlast⟩ := List.pairwise_append.mp hclock
      obtain ⟨w, events, h⟩ := ih
        (fun before c after heq => hcalls before c (after ++ [call]) (by simp [heq])) hbefore
      have hloggable := hcalls calls call [] rfl
      have hearlier : ∀ c ∈ calls, c.time ≤ call.time := fun c hc =>
        hlast c hc call List.mem_cons_self
      cases call with
      | mmap c =>
          by_cases hregisters : c.Registers
          · exact h.mmap hearlier hregisters hloggable
          · exact ⟨w, events, h.ignored hearlier
              (by rw [Wrapper.next, Wrapper.mmap, if_neg hregisters]) hregisters⟩
      | munmap c =>
          cases hlib : c.inLibrary with
          | false => exact h.munmap hearlier hlib hloggable
          | true =>
              refine ⟨w, events, h.ignored hearlier ?_ ?_⟩
              · rw [Wrapper.next, Wrapper.munmap, if_pos hlib]
              · simp [Call.Effective, hlib]

/-- A line for time zero and for each time at which a call was reported, with the
selected memory after the calls up to that time; the last line shows what is
mapped at the end. -/
structure ShowsMemory (stackFilter : ℕ → Bool) (calls : List Call) (lines : List (ℚ≥0 × ℤ)) :
    Prop where
  ascending : (lines.map Prod.fst).Pairwise (· < ·)
  starts : (lines.map Prod.fst).head? = some 0
  times : ∀ t, t ∈ lines.map Prod.fst ↔ t = 0 ∨ ∃ before call after,
    calls = before ++ call :: after ∧ Reported before call ∧ rounded call.time = t
  memory : ∀ line ∈ lines, (selectedBy stackFilter calls
      (calls.filter fun c => rounded c.time ≤ line.1)).Finite ∧
    line.2 = (selectedBy stackFilter calls
      (calls.filter fun c => rounded c.time ≤ line.1)).ncard
  ends : (lines.map Prod.snd).getLast? = some ((selectedBy stackFilter calls calls).ncard : ℤ)

theorem selectedAfter_eq {stackFilter : ℕ → Bool} {before : List Call}
    (h : ∀ x, (ownerAfter events x).map (fun a => a.stackTraceId) =
      (mappingAt before x).map (stackId calls)) :
    selectedAfter stackFilter events = selectedBy stackFilter calls before := by
  ext x
  have hx : (∃ id ∈ (ownerAfter events x).map fun a => a.stackTraceId, stackFilter id = true) ↔
      ∃ id ∈ (mappingAt before x).map (stackId calls), stackFilter id = true := by rw [h]
  simpa [selectedAfter, Extent.selected, selectedBy] using hx

theorem LogRead.showsMemory (h : LogRead calls w events) (stackFilter : ℕ → Bool) :
    ∃ lines, (parseMmapLog (eventLogText w.eventLog)).bind (generateMemoryLog stackFilter) =
      some lines ∧ ShowsMemory stackFilter calls lines := by
  obtain ⟨s, hrun, hinv⟩ := MemoryLog.run_inv stackFilter h.valid
  have hlog := hinv.isMemoryLog
  refine ⟨s.printed ++ [(s.lastTime, s.accumMemory)], ?_, hlog.ascending, hlog.starts,
    fun t => ?_, fun line hline => ?_, ?_⟩
  · rw [h.parsed, Option.bind_some, generateMemoryLog, hrun, Option.map_some]
  · rw [hlog.times, ← h.times]
    constructor
    · exact fun ht => ht.imp_right And.right
    · exact fun ht => (eq_zero_or_pos t).imp_right fun hpos =>
        ⟨hpos, ht.resolve_left hpos.ne'⟩
  · have hshows := hlog.memory line hline
    rwa [Shows, memoryAfter, selectedAfter_eq (h.ownerUpTo line.1)] at hshows
  · rw [List.map_append, List.map_singleton, List.getLast?_concat, hinv.accum_eq, memoryAfter,
      selectedAfter_eq h.owner]

/-- Whatever loggable calls are made, no assertion of the wrapper fails, its log
is accepted, no assertion of `generate_memory_log` fails on it, and the lines show
the selected memory of the calls. -/
theorem memory_log_shows_calls (stackFilter : ℕ → Bool) (calls : List Call)
    (hcalls : ∀ before call after, calls = before ++ call :: after → Loggable before call)
    (hclock : calls.Pairwise fun c d => c.time ≤ d.time) :
    ∃ w lines, Wrapper.run 4096 calls = some w ∧
      (parseMmapLog (eventLogText w.eventLog)).bind (generateMemoryLog stackFilter) =
        some lines ∧ ShowsMemory stackFilter calls lines := by
  obtain ⟨w, events, h⟩ := exists_logRead calls hcalls hclock
  obtain ⟨lines, hlines, hshows⟩ := h.showsMemory stackFilter
  exact ⟨w, lines, h.run, hlines, hshows⟩

/-- Two pages are mapped from one stack and one from another, and the second page
of the first mapping is unmapped. -/
def threePages : List Call :=
  [.mmap ⟨false, 0x10000, 8000, true, 0, [0x401000]⟩,
    .mmap ⟨false, 0x20000, 4096, true, 0, [0x402000]⟩,
    .munmap ⟨false, 0x11000, 4096, true, 1⟩]

theorem loggable_threePages (before : List Call) (call : Call) (after : List Call)
    (h : threePages = before ++ call :: after) : Loggable before call := by
  rcases before with _ | ⟨first, _ | ⟨second, _ | ⟨third, before⟩⟩⟩
  · obtain ⟨rfl, -⟩ := List.cons.inj h
    exact fun _ => ⟨by decide, by decide, by decide +kernel, fun _ _ => rfl⟩
  · obtain ⟨rfl, htail⟩ := List.cons.inj h
    obtain ⟨rfl, -⟩ := List.cons.inj htail
    refine fun _ => ⟨by decide, by decide, by decide +kernel, fun x hx => ?_⟩
    have hlo : (0x20000 : ℤ) ≤ x := hx.1
    rw [← List.nil_append [_], mappingAt_concat, if_neg]
    · rfl
    · intro hcovers
      have hhi : x < (0x10000 : ℤ) + 8192 := hcovers.2.2
      omega
  · obtain ⟨rfl, htail⟩ := List.cons.inj h
    obtain ⟨rfl, hlast⟩ := List.cons.inj htail
    obtain ⟨rfl, -⟩ := List.cons.inj hlast
    exact fun _ => ⟨by decide, by decide, fun _ => ⟨by decide, by decide +kernel⟩⟩
  · have hlength := congrArg List.length h
    simp [threePages] at hlength

theorem memory_log_shows_calls_threePages :
    ∃ w lines, Wrapper.run 4096 threePages = some w ∧
      (parseMmapLog (eventLogText w.eventLog)).bind (generateMemoryLog (· == 1)) = some lines ∧
      ShowsMemory (· == 1) threePages lines :=
  memory_log_shows_calls (· == 1) threePages loggable_threePages (by decide +kernel)

example : ((Wrapper.run 4096 threePages).bind fun w =>
    (parseMmapLog (eventLogText w.eventLog)).bind (generateMemoryLog (· == 1))) =
      some [(0, 8192), (1, 4096)] := by decide +kernel

end AllocCounter.MmapCounter
