import AllocCounter.LogParser
import AllocCounter.StackIdentity
import AllocCounter.MapAgreement

/-!
# The event log and its parser

The texts that the wrapper writes into its event log, with the default format of
a stream for a `double`, and what `parse_mmap_log` makes of them. A log decodes
exactly when every line of it is a plain one; the others come from failed calls,
from clocks that are printed with an exponent, and from null pointers and empty
ranges.
-/
namespace AllocCounter

open NumberTexts ParseMmapLog MapAgreement

namespace ParseMmapLog

def Event.mapEvent : Event → MapEvent ℕ
  | .map _ pointer size stackTraceId _ => .map pointer size stackTraceId
  | .unmap _ pointer size _ => .unmap pointer size

end ParseMmapLog

namespace MmapCounter

/-- A stream prints a null pointer as a zero without a base. -/
def pointerText (pointer : Address) : List Char :=
  if pointer = 0 then ['0'] else '0' :: 'x' :: Nat.toDigits 16 pointer.toNat

namespace LogLine

def text : LogLine → List Char
  | map time ret len stackTraceId =>
      [general time, " MAP: ".toList, pointerText ret, " (".toList, Nat.toDigits 10 len.toNat,
        " bytes) stackTrace=".toList, Nat.toDigits 10 stackTraceId].flatten
  | unmap time addr length =>
      [general time, " UNMAP: ".toList, pointerText addr, " (".toList,
        Nat.toDigits 10 length.toNat, " bytes)".toList].flatten
  | unmapFailed time addr length =>
      [general time, " ERROR: UNMAP FAILED: ".toList, pointerText addr, " (".toList,
        Nat.toDigits 10 length.toNat, " bytes)".toList].flatten

end LogLine

def eventLogText (lines : List LogLine) : List Char := lines.flatMap fun line => line.text ++ ['\n']

def MAP_FAILED : Address := 0xffffffffffffffff

def pageRounded (length : UInt64) : ℕ := (length.toNat + 4095) / 4096 * 4096

namespace LogLine

/-- The successful mapping or the unmapping that a line reports. -/
def mapEvent : LogLine → Option (MapEvent ℕ)
  | map _ ret len stackTraceId =>
      if ret = MAP_FAILED then none else some (.map ret.toNat (pageRounded len) stackTraceId)
  | unmap _ addr length => some (.unmap addr.toNat (pageRounded length))
  | unmapFailed _ _ _ => none

/-- The line reports something, and nothing in it is outside the format of the
parser. -/
def Plain : LogLine → Prop
  | map time ret len _ => ret ≠ MAP_FAILED ∧ ret ≠ 0 ∧ len ≠ 0 ∧ Fixed time
  | unmap time addr length => addr ≠ 0 ∧ length ≠ 0 ∧ Fixed time
  | unmapFailed _ _ _ => False

variable {time : ℚ≥0} {pointer len : UInt64} {stackTraceId : ℕ} {lineNumber : ℕ}

theorem space_notMem_general (time : ℚ≥0) : ' ' ∉ general time := by
  intro h
  cases of_mem_general time ' ' h with
  | inl hdigit => exact absurd hdigit (by decide)
  | inr hmem => exact absurd hmem (by decide)

theorem space_notMem_toDigits (n : ℕ) : ' ' ∉ Nat.toDigits 10 n :=
  fun h => absurd (isDigit_of_mem ' ' h) (by decide)

theorem space_notMem_pointerText (pointer : Address) : ' ' ∉ pointerText pointer := by
  have hdigits : ' ' ∉ Nat.toDigits 16 pointer.toNat :=
    fun h => absurd (isHexDigit_of_mem ' ' h) (by decide)
  unfold pointerText
  split_ifs <;> simp [hdigits]

theorem text_map : (map time pointer len stackTraceId).text =
    general time ++ ["MAP:".toList, pointerText pointer, '(' :: Nat.toDigits 10 len.toNat,
      "bytes)".toList, "stackTrace=".toList ++ Nat.toDigits 10 stackTraceId].flatMap
        fun word => ' ' :: word := by
  simp [text]

theorem text_unmap : (unmap time pointer len).text =
    general time ++ ["UNMAP:".toList, pointerText pointer, '(' :: Nat.toDigits 10 len.toNat,
      "bytes)".toList].flatMap fun word => ' ' :: word := by
  simp [text]

theorem map_infix_map : " MAP:".toList <:+: (map time pointer len stackTraceId).text := by
  rw [text_map]
  refine (infix_words_iff (t := "MAP:".toList) (by decide) (space_notMem_general time) ?_).mpr
    ⟨_, List.mem_cons_self, List.prefix_refl _⟩
  simp [space_notMem_pointerText, space_notMem_toDigits]

theorem not_map_infix_unmap : ¬ " MAP:".toList <:+: (unmap time pointer len).text := by
  rw [text_unmap]
  refine (infix_words_iff (t := "MAP:".toList) (by decide) (space_notMem_general time) ?_).not.mpr ?_
  · simp [space_notMem_pointerText, space_notMem_toDigits]
  · unfold pointerText
    split_ifs <;> simp

theorem unmap_infix_unmap : " UNMAP:".toList <:+: (unmap time pointer len).text := by
  rw [text_unmap]
  refine (infix_words_iff (t := "UNMAP:".toList) (by decide) (space_notMem_general time) ?_).mpr
    ⟨_, List.mem_cons_self, List.prefix_refl _⟩
  simp [space_notMem_pointerText, space_notMem_toDigits]

theorem newline_notMem_text (line : LogLine) : '\n' ∉ line.text := by
  have hgeneral : ∀ time, '\n' ∉ general time := by
    intro time h
    cases of_mem_general time '\n' h with
    | inl hdigit => exact absurd hdigit (by decide)
    | inr hmem => exact absurd hmem (by decide)
  have hdigits : ∀ n, '\n' ∉ Nat.toDigits 10 n := fun n h =>
    absurd (isDigit_of_mem '\n' h) (by decide)
  have hpointer : ∀ pointer, '\n' ∉ pointerText pointer := by
    intro pointer
    have hhex : '\n' ∉ Nat.toDigits 16 pointer.toNat :=
      fun h => absurd (isHexDigit_of_mem '\n' h) (by decide)
    unfold pointerText
    split_ifs <;> simp [hhex]
  cases line <;> simp [text, hgeneral, hdigits, hpointer]

theorem not_allows_space : ∀ item ∈ number, ¬ item.Allows ' ' := by
  simp [number, RegularExpressions.Item.Allows]

theorem not_allows_e : ∀ item ∈ number, ¬ item.Allows 'e' := by
  simp [number, RegularExpressions.Item.Allows]

/-- A clock with an exponent does not match, and neither does a null pointer. -/
theorem match?_line_eq_none (h : ¬ Fixed time ∨ pointer = 0) (keyword rest : List Char)
    (parts : List RegularExpressions.Part) :
    RegularExpressions.match?
      (.group number :: .item (.text (' ' :: (keyword ++ "0x".toList))) :: parts)
      (general time ++ ' ' :: (keyword ++ (pointerText pointer ++ ' ' :: rest))) = none := by
  apply RegularExpressions.match?_eq_none not_allows_space (space_notMem_general time)
  cases h with
  | inl hexp => exact .inl ⟨'e', mem_e_of_not_fixed hexp, not_allows_e⟩
  | inr hnull => exact .inr (by simp [pointerText, hnull, List.prefix_append_right_inj])

theorem match?_map_eq_none (h : ¬ Fixed time ∨ pointer = 0) :
    RegularExpressions.match? reMap (map time pointer len stackTraceId).text = none := by
  rw [← match?_line_eq_none h "MAP: ".toList ('(' :: (Nat.toDigits 10 len.toNat ++
    (" bytes) stackTrace=".toList ++ Nat.toDigits 10 stackTraceId))) (reMap.drop 2)]
  simp [text, reMap]

theorem match?_unmap_eq_none (h : ¬ Fixed time ∨ pointer = 0) :
    RegularExpressions.match? reUnmap (unmap time pointer len).text = none := by
  rw [← match?_line_eq_none h "UNMAP: ".toList ('(' :: (Nat.toDigits 10 len.toNat ++
    " bytes)".toList)) (reUnmap.drop 2)]
  simp [text, reUnmap]

theorem match?_map (htime : Fixed time) (hpointer : pointer ≠ 0) :
    RegularExpressions.match? reMap (map time pointer len stackTraceId).text =
      some [general time, Nat.toDigits 16 pointer.toNat, Nat.toDigits 10 len.toNat,
        Nat.toDigits 10 stackTraceId] := by
  rw [← match?_reMap (isDecimal_of_fixed htime) Nat.toDigits_ne_nil isHexDigit_of_mem
    Nat.toDigits_ne_nil isDigit_of_mem Nat.toDigits_ne_nil isDigit_of_mem]
  simp [text, pointerText, hpointer]

theorem match?_unmap (htime : Fixed time) (hpointer : pointer ≠ 0) :
    RegularExpressions.match? reUnmap (unmap time pointer len).text =
      some [general time, Nat.toDigits 16 pointer.toNat, Nat.toDigits 10 len.toNat] := by
  rw [← match?_reUnmap (isDecimal_of_fixed htime) Nat.toDigits_ne_nil isHexDigit_of_mem
    Nat.toDigits_ne_nil isDigit_of_mem]
  simp [text, pointerText, hpointer]

theorem checked_length (len : UInt64) :
    checked (roundUpPage (value 10 (Nat.toDigits 10 len.toNat))) =
      if len = 0 then none else some (pageRounded len) := by
  have hzero : len.toNat = 0 ↔ len = 0 := UInt64.toNat_inj (b := 0)
  rw [value_toDigits (by decide) (by decide), checked_roundUpPage]
  simp only [hzero, roundUpPage_eq, pageRounded]

/-- A line with a clock in fixed notation, a pointer and a length is read back. -/
theorem parseLine_map : parseLine lineNumber (map time pointer len stackTraceId).text =
    if Fixed time ∧ pointer ≠ 0 ∧ len ≠ 0 then
      some (.map (float (general time)) pointer.toNat (pageRounded len) stackTraceId lineNumber)
    else none := by
  rw [parseLine, if_pos map_infix_map]
  by_cases h : ¬ Fixed time ∨ pointer = 0
  · rw [match?_map_eq_none h, if_neg]
    exact fun hall => h.elim (absurd hall.1) hall.2.1
  · rw [not_or, not_not] at h
    rw [match?_map h.1 h.2]
    dsimp only
    rw [checked_length, value_toDigits (by decide) (by decide),
      value_toDigits (by decide) (by decide)]
    by_cases hlen : len = 0 <;> simp [h, hlen]

theorem parseLine_unmap : parseLine lineNumber (unmap time pointer len).text =
    if Fixed time ∧ pointer ≠ 0 ∧ len ≠ 0 then
      some (.unmap (float (general time)) pointer.toNat (pageRounded len) lineNumber)
    else none := by
  rw [parseLine, if_neg not_map_infix_unmap, if_pos unmap_infix_unmap]
  by_cases h : ¬ Fixed time ∨ pointer = 0
  · rw [match?_unmap_eq_none h, if_neg]
    exact fun hall => h.elim (absurd hall.1) hall.2.1
  · rw [not_or, not_not] at h
    rw [match?_unmap h.1 h.2]
    dsimp only
    rw [checked_length, value_toDigits (by decide) (by decide)]
    by_cases hlen : len = 0 <;> simp [h, hlen]

/-- A plain line is read back as what it reports. -/
theorem Plain.parseLine {line : LogLine} (h : line.Plain) (lineNumber : ℕ) :
    ∃ event, ParseMmapLog.parseLine lineNumber line.text = some event ∧
      line.mapEvent = some event.mapEvent := by
  cases line with
  | map time ret len stackTraceId =>
      obtain ⟨hfailed, hret, hlen, htime⟩ := h
      refine ⟨_, parseLine_map.trans (if_pos ⟨htime, hret, hlen⟩), ?_⟩
      rw [mapEvent, if_neg hfailed]
      rfl
  | unmap time addr length =>
      obtain ⟨haddr, hlength, htime⟩ := h
      exact ⟨_, parseLine_unmap.trans (if_pos ⟨htime, haddr, hlength⟩), rfl⟩
  | unmapFailed time addr length => exact h.elim

/-- A line that is not plain and reports something is not read at all. -/
theorem parseLine_eq_none {line : LogLine} (h : ¬ line.Plain) (hevent : line.mapEvent ≠ none)
    (lineNumber : ℕ) : ParseMmapLog.parseLine lineNumber line.text = none := by
  cases line with
  | map time ret len stackTraceId =>
      have hfailed : ret ≠ MAP_FAILED := fun heq => hevent (if_pos heq)
      rw [parseLine_map, if_neg]
      exact fun hall => h ⟨hfailed, hall.2.1, hall.2.2, hall.1⟩
  | unmap time addr length =>
      rw [parseLine_unmap, if_neg]
      exact fun hall => h ⟨hall.2.1, hall.2.2, hall.1⟩
  | unmapFailed time addr length => exact absurd rfl hevent

end LogLine

/-- The parser accepts the whole log and yields what it reports, in order. -/
def Decodes (lines : List LogLine) : Prop :=
  ∃ events, parseMmapLog (eventLogText lines) = some events ∧
    events.map Event.mapEvent = lines.filterMap LogLine.mapEvent

theorem parseMmapLog_eventLogText (lines : List LogLine) :
    parseMmapLog (eventLogText lines) =
      (lines.zipIdx 1).mapM fun e => parseLine e.2 e.1.text := by
  have hlines : ∀ line ∈ lines.map LogLine.text, '\n' ∉ line :=
    List.forall_mem_map.mpr fun line _ => line.newline_notMem_text
  have hparse := parseMmapLog_lines hlines
  rw [List.flatMap_map] at hparse
  rw [eventLogText, hparse, List.zipIdx_map, List.mapM_map]
  rfl

theorem parse_of_plain {lines : List LogLine} (h : ∀ line ∈ lines, line.Plain) (n : ℕ) :
    ∃ events, ((lines.zipIdx n).mapM fun e => parseLine e.2 e.1.text) = some events ∧
      events.map Event.mapEvent = lines.filterMap LogLine.mapEvent := by
  induction lines generalizing n with
  | nil => exact ⟨[], rfl, rfl⟩
  | cons line lines ih =>
      obtain ⟨event, hparse, hevent⟩ := (h line List.mem_cons_self).parseLine n
      obtain ⟨events, hrest, hevents⟩ := ih (fun l hl => h l (List.mem_cons_of_mem _ hl)) (n + 1)
      refine ⟨event :: events, ?_, ?_⟩
      · simp [hparse, hrest]
      · simp [hevent, hevents]

theorem plain_of_parse {lines : List LogLine} {n : ℕ} {events : List Event}
    (h : ((lines.zipIdx n).mapM fun e => parseLine e.2 e.1.text) = some events) :
    events.length = lines.length ∧ ∀ line ∈ lines, line.mapEvent ≠ none → line.Plain := by
  induction lines generalizing n events with
  | nil =>
      rw [← Option.some.inj h]
      exact ⟨rfl, nofun⟩
  | cons line lines ih =>
      rw [List.zipIdx_cons, List.mapM_cons] at h
      obtain ⟨event, hparse, h⟩ := Option.bind_eq_some_iff.mp h
      obtain ⟨rest, hrest, heq⟩ := Option.bind_eq_some_iff.mp h
      have ⟨hlength, hplain⟩ := ih hrest
      rw [← Option.some.inj heq]
      refine ⟨by simp [hlength], List.forall_mem_cons.mpr ⟨fun hevent => ?_, hplain⟩⟩
      by_contra hnot
      have hnone := LogLine.parseLine_eq_none hnot hevent n
      exact nomatch hparse.symm.trans hnone

/-- A log decodes exactly when all its lines are plain. -/
theorem decodes_log_iff (lines : List LogLine) :
    Decodes lines ↔ ∀ line ∈ lines, line.Plain := by
  unfold Decodes
  rw [parseMmapLog_eventLogText]
  constructor
  · intro ⟨events, hparse, hevents⟩
    have ⟨hlength, hplain⟩ := plain_of_parse hparse
    -- as many events as lines, so every line reports something
    have hall : (lines.filterMap LogLine.mapEvent).length = lines.length := by
      rw [← hevents, List.length_map, hlength]
    rw [List.filterMap_length_eq_length] at hall
    intro line hline
    exact hplain line hline (Option.isSome_iff_ne_none.mp (hall line hline))
  · exact fun h => parse_of_plain h 1

/-- The clock is one that six digits show without an exponent. -/
def PlainClock (time : ℚ≥0) : Prop := time = 0 ∨ 9.999995e-5 ≤ time ∧ time < 999999.5

instance (time : ℚ≥0) : Decidable (PlainClock time) := inferInstanceAs (Decidable (_ ∨ _ ∧ _))

namespace Wrapper

/-- A logged mapping succeeded, no unmapping failed, and a logged unmapping, which
is one of known memory, has a pointer. -/
def Clean (w : Wrapper) : Call → Prop
  | .mmap c => c.Registers → c.ret ≠ MAP_FAILED ∧ c.len ≠ 0 ∧ PlainClock c.time
  | .munmap c => c.inLibrary = false → c.succeeds = true ∧
      (w.memoryMap.Knows .lp64 (toIntptr c.addr) (roundUpToPageMultiple 4096 c.length).toNat →
        c.addr ≠ 0 ∧ PlainClock c.time)

instance (w : Wrapper) : (c : Call) → Decidable (w.Clean c)
  | .mmap _ => inferInstanceAs (Decidable (_ → _))
  | .munmap _ => inferInstanceAs (Decidable (_ → _))

def AllClean (w : Wrapper) : List Call → Prop
  | [] => True
  | c :: calls => w.Clean c ∧ ∀ w' ∈ w.next 4096 c, AllClean w' calls

instance decidableAllClean : (w : Wrapper) → (calls : List Call) → Decidable (w.AllClean calls)
  | _, [] => inferInstanceAs (Decidable True)
  | w, c :: calls =>
      have (w' : Wrapper) : Decidable (AllClean w' calls) := decidableAllClean w' calls
      inferInstanceAs (Decidable (_ ∧ ∀ w' ∈ w.next 4096 c, _))

variable {w w' : Wrapper}

/-- No memory of an empty range is known. -/
theorem length_ne_zero_of_knows {addr : Address} {length : UInt64}
    (h : w.memoryMap.Knows .lp64 (toIntptr addr) (roundUpToPageMultiple 4096 length).toNat) :
    length ≠ 0 := by
  rintro rfl
  have hround : (roundUpToPageMultiple 4096 0).toNat = 0 := rfl
  have hsame : Target.lp64.intptr (toIntptr addr + (0 : ℕ)) = toIntptr addr := by
    simp [toIntptr, Target.intptr]
  have hlt := h.1
  rw [hround, hsame] at hlt
  exact lt_irrefl _ hlt

/-- The lines that a call adds are plain exactly when the call is clean. -/
theorem next_log {c : Call} (h : w.next 4096 c = some w') :
    ∃ lines, w'.eventLog = w.eventLog ++ lines ∧
      ((∀ line ∈ lines, line.Plain) ↔ w.Clean c) := by
  cases c with
  | mmap c =>
      simp only [next, mmap] at h
      split_ifs at h with hreg
      · obtain ⟨_, _, id, -, -, -, hlog, -⟩ := registerMapping_spec h
        refine ⟨_, hlog, ?_⟩
        simp [LogLine.Plain, Clean, hreg, hreg.2.1, fixed_iff, PlainClock]
      · rw [← Option.some.inj h]
        exact ⟨[], by simp, by simp [Clean, hreg]⟩
  | munmap c =>
      rcases munmap_cases h with ⟨hlib, rfl⟩ | ⟨hlib, hok, -, known, m, _, hunmap, rfl, -⟩ |
        ⟨hlib, hfailed, rfl⟩
      · exact ⟨[], by simp, by simp [Clean, hlib]⟩
      · have hanswer := MemoryMap.registerUnmap_answer hunmap
        refine ⟨_, rfl, ?_⟩
        cases known with
        | true =>
            have hknows := hanswer.mp rfl
            simp [LogLine.Plain, Clean, hlib, hok, hknows, length_ne_zero_of_knows hknows,
              fixed_iff, PlainClock]
        | false =>
            have hknows := hanswer.not.mp Bool.false_ne_true
            simp [Clean, hok, hknows]
      · exact ⟨_, rfl, by simp [LogLine.Plain, Clean, hlib, hfailed]⟩

theorem run_log {calls : List Call} (h : calls.foldlM (next 4096) w = some w') :
    (∀ line ∈ w'.eventLog, line.Plain) ↔
      (∀ line ∈ w.eventLog, line.Plain) ∧ w.AllClean calls := by
  induction calls generalizing w with
  | nil =>
      rw [← Option.some.inj h]
      simp [AllClean]
  | cons c calls ih =>
      rw [List.foldlM_cons] at h
      obtain ⟨w₁, hnext, hrest⟩ := Option.bind_eq_some_iff.mp h
      obtain ⟨lines, hlog, hplain⟩ := next_log hnext
      rw [ih hrest, hlog, List.forall_mem_append, hplain, and_assoc]
      simp [AllClean, hnext]

/-- The event log of a run decodes exactly when all its calls are clean. -/
theorem decodes_iff {calls : List Call} (h : run 4096 calls = some w) :
    Decodes w.eventLog ↔ AllClean {} calls := by
  have hrun := run_log h
  rw [decodes_log_iff, hrun]
  exact and_iff_right nofun

/-- Two pages mapped, the second one unmapped, and a foreign page unmapped. -/
def mapUnmap : List Call :=
  [.mmap ⟨false, 0x7f0000000000, 8000, true, 1234 / 8, [1, 2]⟩,
    .munmap ⟨false, 0x7f0000001000, 4096, true, 1235 / 8⟩,
    .munmap ⟨false, 0x7f0000005000, 4096, true, 1236 / 8⟩]

theorem decodes_iff_mapUnmap :
    ∃ w, run 4096 mapUnmap = some w ∧ w.eventLog.length = 2 ∧ Decodes w.eventLog :=
  ⟨(run 4096 mapUnmap).get (by decide +kernel), (Option.some_get _).symm, by decide +kernel,
    (decodes_iff (Option.some_get _).symm).mpr (by decide +kernel)⟩

/-- A page mapped one million seconds after the start of the machine. -/
def longUptime : List Call := [.mmap ⟨false, 0x7f0000000000, 4096, true, 1000000, [1, 2]⟩]

theorem not_decodes_longUptime :
    ¬ ∀ (calls : List Call) (w : Wrapper), run 4096 calls = some w → Decodes w.eventLog := by
  intro h
  have hrun : run 4096 longUptime = some ((run 4096 longUptime).get (by decide +kernel)) :=
    (Option.some_get _).symm
  obtain ⟨events, hparse, -⟩ := h longUptime _ hrun
  have hnone : parseMmapLog (eventLogText
      ((run 4096 longUptime).get (by decide +kernel)).eventLog) = none := by decide +kernel
  exact nomatch hparse.symm.trans hnone

end Wrapper
end MmapCounter
end AllocCounter
