import AllocCounter.EventLog
import AllocCounter.StackIdentity

/-!
# The stack log

The text of a stack trace, as the `operator<<` of `common/stack-trace.cpp` prints
it, and the stack log of the mmap wrapper. Whatever names without line breaks the
dynamic linker gives, the stack log can be read back line by line, and with the event
log it tells the stack of every logged mapping. The repository has no reader of the
stack log; the one here says what the log holds.
-/
namespace AllocCounter

open NumberTexts

/-- What `dladdr` finds out about an address. -/
structure DlInfo where
  fname : Option (List Char)
  fbase : Address
  sname : Option (List Char)
  saddr : Address

/-- What is outside the program when stack traces are printed: the name of the
architecture, and the answers of `dladdr` when the trace with an id is printed.
The file and the symbol that an address is in start at or below it, and no name
has a line break. -/
structure Linker where
  archName : List Char
  dladdr : ℕ → Address → Option DlInfo
  fbase_le : ∀ id a info, dladdr id a = some info → info.fname ≠ none → info.fbase ≤ a
  saddr_le : ∀ id a info, dladdr id a = some info → info.sname ≠ none → info.saddr ≤ a
  archName_line : '\n' ∉ archName
  fname_line : ∀ id a info, dladdr id a = some info → ∀ name ∈ info.fname, '\n' ∉ name
  sname_line : ∀ id a info, dladdr id a = some info → ∀ name ∈ info.sname, '\n' ∉ name

/-- The base in which a stream prints integers. -/
inductive Radix where
  | dec
  | hex
deriving DecidableEq

def Radix.digits : Radix → ℕ → List Char
  | .dec => Nat.toDigits 10
  | .hex => Nat.toDigits 16

/-- The assertion fails for a pointer below the base. -/
def offset (base pointer : Address) : Option ℕ :=
  if base ≤ pointer then some (pointer.toNat - base.toNat) else none

namespace StackTrace

open MmapCounter

def symbolText (radix : Radix) (info : DlInfo) (returnAddress : Address) : Option (List Char) :=
  match info.sname with
  | none => some []
  | some sname => (offset info.saddr returnAddress).map fun o =>
      [" in ".toList, sname, "+".toList, radix.digits o].flatten

/-- The offset in a file is printed in hexadecimal. -/
def fileText (archName : List Char) (info : DlInfo) (returnAddress : Address) :
    Option (List Char) :=
  match info.fname with
  | none => some []
  | some fname => (offset info.fbase returnAddress).map fun o =>
      [" (".toList, fname, ":".toList, archName, "+0x".toList, Radix.hex.digits o,
        ")".toList].flatten

/-- One round of the loop. The stream is set back to decimals after an offset in a
file. -/
def printFrame (archName : List Char) (dladdr : Address → Option DlInfo) (radix : Radix)
    (frameNumber : ℕ) (returnAddress : Address) : Option (List Char × Radix) :=
  let head := ["    #".toList, radix.digits frameNumber, " ".toList,
    pointerText returnAddress].flatten
  match dladdr returnAddress with
  | none => some (head ++ " [GARBAGE]\n".toList, radix)
  | some info =>
      (symbolText radix info returnAddress).bind fun symbol =>
        (fileText archName info returnAddress).map fun file =>
          (head ++ symbol ++ file ++ ['\n'], if info.fname = none then radix else .dec)

def printFrames (archName : List Char) (dladdr : Address → Option DlInfo) (radix : Radix)
    (frameNumber : ℕ) : List Address → Option (List Char × Radix)
  | [] => some ([], radix)
  | returnAddress :: rest =>
      (printFrame archName dladdr radix frameNumber returnAddress).bind fun (line, radix) =>
        (printFrames archName dladdr radix (frameNumber + 1) rest).map fun (text, radix) =>
          (line ++ text, radix)

/-- `operator<<`. The stream is left with decimals. -/
def print (archName : List Char) (dladdr : Address → Option DlInfo) (radix : Radix)
    (st : StackTrace) : Option (List Char × Radix) :=
  (printFrames archName dladdr radix 0 st.returnAddresses).map fun (text, _) => (text, .dec)

end StackTrace

namespace MmapCounter

def stackHeading : List Char := "New stack trace: ".toList

/-- What `mmap` writes into the stack log for a new stack. -/
def writeStack (linker : Linker) (log : List Char × Radix) (entry : ℕ × StackTrace) :
    Option (List Char × Radix) :=
  (entry.2.print linker.archName (linker.dladdr entry.1) log.2).map fun (text, radix) =>
    ([log.1, stackHeading, log.2.digits entry.1, ['\n'], text, ['\n']].flatten, radix)

def stackLogText (linker : Linker) (stackLog : List (ℕ × StackTrace)) : Option (List Char) :=
  (stackLog.foldlM (writeStack linker) ([], .dec)).map Prod.fst

def unlines (lines : List (List Char)) : List Char := lines.flatMap fun line => line ++ ['\n']

def readPointer (text : List Char) : Address := UInt64.ofNat (value 16 (text.drop 2))

/-- The word after the number of the frame. -/
def frameAddress (line : List Char) : Address :=
  readPointer ((((line.dropWhile (· ≠ '#')).dropWhile (· ≠ ' ')).drop 1).takeWhile (· ≠ ' '))

/-- A heading is followed by the lines of its frames, which start with a blank. -/
def readStacks : List (List Char) → List (ℕ × StackTrace)
  | [] => []
  | line :: rest =>
      if stackHeading <+: line then
        (value 10 (line.drop stackHeading.length),
          ⟨(rest.takeWhile fun line => line.head? = some ' ').map frameAddress⟩) ::
          readStacks rest
      else readStacks rest

def readStackLog (text : List Char) : List (ℕ × StackTrace) :=
  readStacks ((ParseMmapLog.readlines text).map List.dropLast)

/-- The id at the end of a line about a mapping. -/
def mappingId (line : List Char) : Option ℕ :=
  let digits := line.rtakeWhile Char.isDigit
  if digits = [] then none else some (value 10 digits)

def mappingIds (text : List Char) : List ℕ :=
  ((ParseMmapLog.readlines text).map List.dropLast).filterMap mappingId

theorem unlines_append (lines lines' : List (List Char)) :
    unlines (lines ++ lines') = unlines lines ++ unlines lines' := List.flatMap_append

theorem readlines_unlines {lines : List (List Char)} (h : ∀ line ∈ lines, '\n' ∉ line) :
    (ParseMmapLog.readlines (unlines lines)).map List.dropLast = lines := by
  rw [unlines, ParseMmapLog.readlines_lines h, List.map_map]
  exact (List.map_congr_left fun line _ => List.dropLast_concat).trans (List.map_id lines)

theorem newline_notMem_digits (radix : Radix) (n : ℕ) : '\n' ∉ radix.digits n := by
  cases radix with
  | dec => exact fun h => absurd (isDigit_of_mem '\n' h) (by decide)
  | hex => exact fun h => absurd (isHexDigit_of_mem '\n' h) (by decide)

theorem newline_notMem_pointerText (a : Address) : '\n' ∉ pointerText a := by
  have hdigits := newline_notMem_digits .hex a.toNat
  unfold Radix.digits at hdigits
  unfold pointerText
  split_ifs <;> simp [hdigits]

theorem readPointer_pointerText (a : Address) : readPointer (pointerText a) = a := by
  unfold pointerText
  split_ifs with hnull
  · rw [hnull]
    rfl
  · rw [readPointer, List.drop_succ_cons, List.drop_succ_cons, List.drop_zero,
      value_toDigits (by decide) (by decide), UInt64.ofNat_toNat]

/-- The line of a frame. -/
def frameLine (frameNumber : ℕ) (a : Address) (tail : List Char) : List Char :=
  "    #".toList ++ (Nat.toDigits 10 frameNumber ++ ' ' :: (pointerText a ++ tail))

theorem frameAddress_frameLine (frameNumber : ℕ) (a : Address) {tail : List Char}
    (htail : ∀ c ∈ tail.head?, c = ' ') : frameAddress (frameLine frameNumber a tail) = a := by
  have hnumber : (frameLine frameNumber a tail).dropWhile (· ≠ '#') =
      '#' :: (Nat.toDigits 10 frameNumber ++ ' ' :: (pointerText a ++ tail)) := by
    simp [frameLine]
  have hdigits : ∀ c ∈ '#' :: Nat.toDigits 10 frameNumber, decide (c ≠ ' ') = true := by
    intro c hc
    have hspace := LogLine.space_notMem_toDigits frameNumber
    rcases List.mem_cons.mp hc with rfl | hc
    · decide
    · exact decide_eq_true fun heq => hspace (heq ▸ hc)
  have hpointer : ∀ c ∈ pointerText a, decide (c ≠ ' ') = true := fun c hc =>
    decide_eq_true fun heq => LogLine.space_notMem_pointerText a (heq ▸ hc)
  rw [frameAddress, hnumber, ← List.cons_append, List.dropWhile_append_of_pos hdigits]
  have hend : tail.takeWhile (· ≠ ' ') = [] := by
    cases tail with
    | nil => rfl
    | cons c tail => simp [htail c rfl]
  rw [List.dropWhile_cons_of_neg (by decide), List.drop_one, List.tail_cons,
    List.takeWhile_append_of_pos hpointer, hend, List.append_nil, readPointer_pointerText]

theorem newline_notMem_frameLine (frameNumber : ℕ) (a : Address) {tail : List Char}
    (htail : '\n' ∉ tail) : '\n' ∉ frameLine frameNumber a tail := by
  have hnumber : '\n' ∉ Nat.toDigits 10 frameNumber := newline_notMem_digits .dec frameNumber
  simp [frameLine, hnumber, newline_notMem_pointerText, htail]

theorem offset_of_le {base a : Address} (h : base ≤ a) :
    offset base a = some (a.toNat - base.toNat) := if_pos h

/-- A name with an offset is printed on the line, after a blank. -/
theorem exists_nameText {name : Option (List Char)} {base a : Address}
    {text : List Char → ℕ → List Char} (hle : name ≠ none → base ≤ a)
    (hline : ∀ n ∈ name, ∀ o, '\n' ∉ text n o) (hblank : ∀ n o, (text n o).head? = some ' ') :
    ∃ printed, (match name with
        | none => some []
        | some n => (offset base a).map (text n)) = some printed ∧
      '\n' ∉ printed ∧ ∀ c ∈ printed.head?, c = ' ' := by
  cases name with
  | none => exact ⟨[], rfl, List.not_mem_nil, nofun⟩
  | some n =>
      refine ⟨_, by rw [offset_of_le (hle nofun)]; rfl, hline n rfl _, fun c hc => ?_⟩
      rw [hblank] at hc
      exact (Option.some.inj hc).symm

theorem exists_symbolText (linker : Linker) {id : ℕ} {a : Address} {info : DlInfo}
    (h : linker.dladdr id a = some info) :
    ∃ text, StackTrace.symbolText .dec info a = some text ∧ '\n' ∉ text ∧
      ∀ c ∈ text.head?, c = ' ' := by
  refine exists_nameText (linker.saddr_le id a info h) (fun sname hname o => ?_) fun n o => rfl
  simp [linker.sname_line id a info h sname hname, newline_notMem_digits]

theorem exists_fileText (linker : Linker) {id : ℕ} {a : Address} {info : DlInfo}
    (h : linker.dladdr id a = some info) :
    ∃ text, StackTrace.fileText linker.archName info a = some text ∧ '\n' ∉ text ∧
      ∀ c ∈ text.head?, c = ' ' := by
  refine exists_nameText (linker.fbase_le id a info h) (fun fname hname o => ?_) fun n o => rfl
  simp [linker.fname_line id a info h fname hname, linker.archName_line, newline_notMem_digits]

/-- A frame is printed on a line, and leaves decimals. -/
theorem exists_printFrame (linker : Linker) (id frameNumber : ℕ) (a : Address) :
    ∃ tail, StackTrace.printFrame linker.archName (linker.dladdr id) .dec frameNumber a =
        some (frameLine frameNumber a tail ++ ['\n'], .dec) ∧
      '\n' ∉ tail ∧ ∀ c ∈ tail.head?, c = ' ' := by
  unfold StackTrace.printFrame
  cases hinfo : linker.dladdr id a with
  | none =>
      refine ⟨" [GARBAGE]".toList, ?_, by simp, by simp⟩
      simp [frameLine, Radix.digits]
  | some info =>
      obtain ⟨symbol, hsymbol, hline, hblank⟩ := exists_symbolText linker hinfo
      obtain ⟨file, hfile, hline', hblank'⟩ := exists_fileText linker hinfo
      refine ⟨symbol ++ file, ?_, by simp [hline, hline'], fun c hc => ?_⟩
      · simp [hsymbol, hfile, frameLine, Radix.digits]
      · cases symbol with
        | nil => exact hblank' c hc
        | cons c' symbol => exact hblank c hc

/-- The frames are printed line by line. -/
theorem exists_printFrames (linker : Linker) (id frameNumber : ℕ) (addresses : List Address) :
    ∃ lines, StackTrace.printFrames linker.archName (linker.dladdr id) .dec frameNumber addresses =
        some (unlines lines, .dec) ∧
      (∀ line ∈ lines, '\n' ∉ line ∧ line.head? = some ' ') ∧
      lines.map frameAddress = addresses := by
  induction addresses generalizing frameNumber with
  | nil => exact ⟨[], rfl, nofun, rfl⟩
  | cons a rest ih =>
      obtain ⟨tail, hframe, hline, hblank⟩ := exists_printFrame linker id frameNumber a
      obtain ⟨lines, hframes, hlines, haddresses⟩ := ih (frameNumber + 1)
      refine ⟨frameLine frameNumber a tail :: lines, ?_, ?_, ?_⟩
      · simp [StackTrace.printFrames, hframe, hframes, unlines]
      · exact List.forall_mem_cons.mpr ⟨⟨newline_notMem_frameLine frameNumber a hline, rfl⟩, hlines⟩
      · rw [List.map_cons, frameAddress_frameLine frameNumber a hblank, haddresses]

theorem newline_notMem_heading (id : ℕ) : '\n' ∉ stackHeading ++ Nat.toDigits 10 id := by
  have hheading : '\n' ∉ stackHeading := by decide
  exact fun h => (List.mem_append.mp h).elim hheading (newline_notMem_digits .dec id)

theorem head?_heading (tail : List Char) : (stackHeading ++ tail).head? = some 'N' := by
  have h : stackHeading = 'N' :: stackHeading.tail := by decide
  rw [h]
  rfl

theorem readStacks_frames {lines : List (List Char)} (h : ∀ line ∈ lines, line.head? = some ' ')
    (rest : List (List Char)) : readStacks (lines ++ rest) = readStacks rest := by
  induction lines with
  | nil => rfl
  | cons line lines ih =>
      have hnot : ¬ stackHeading <+: line := by
        rintro ⟨tail, htail⟩
        have hhead := h line List.mem_cons_self
        rw [← htail, head?_heading] at hhead
        exact absurd hhead (by decide)
      rw [List.cons_append, readStacks, if_neg hnot]
      exact ih fun l hl => h l (List.mem_cons_of_mem _ hl)

/-- A heading, its frames and the blank line after them are read as an entry. -/
theorem readStacks_entry (id : ℕ) {lines : List (List Char)} {addresses : List Address}
    (h : ∀ line ∈ lines, line.head? = some ' ') (hmap : lines.map frameAddress = addresses)
    (rest : List (List Char)) :
    readStacks ((stackHeading ++ Nat.toDigits 10 id) :: (lines ++ [] :: rest)) =
      (id, ⟨addresses⟩) :: readStacks rest := by
  have hframes : (lines ++ [] :: rest).takeWhile (fun line => line.head? = some ' ') = lines := by
    rw [List.takeWhile_append_of_pos fun line hline => decide_eq_true (h line hline),
      List.takeWhile_cons_of_neg (by simp), List.append_nil]
  have hblank : readStacks ([] :: rest) = readStacks rest := by
    rw [readStacks, if_neg (by decide)]
  rw [readStacks, if_pos (List.prefix_append _ _), List.drop_left,
    value_toDigits (by decide) (by decide), hframes, hmap, readStacks_frames h, hblank]

/-- The stack log is read back. -/
theorem exists_stackLogText (linker : Linker) (stackLog : List (ℕ × StackTrace)) :
    ∃ text, stackLogText linker stackLog = some text ∧ readStackLog text = stackLog := by
  have hlines : ∀ written, ∃ lines, stackLog.foldlM (writeStack linker) (written, .dec) =
      some (written ++ unlines lines, .dec) ∧ (∀ line ∈ lines, '\n' ∉ line) ∧
        readStacks lines = stackLog := by
    induction stackLog with
    | nil => exact fun written => ⟨[], by simp [unlines], nofun, rfl⟩
    | cons entry stackLog ih =>
        intro written
        obtain ⟨id, st⟩ := entry
        obtain ⟨lines, hprint, hline, haddresses⟩ := exists_printFrames linker id 0
          st.returnAddresses
        have hwrite : writeStack linker (written, .dec) (id, st) = some (written ++ unlines
            ((stackHeading ++ Nat.toDigits 10 id) :: (lines ++ [[]])), .dec) := by
          simp [writeStack, StackTrace.print, hprint, Radix.digits, unlines]
        obtain ⟨rest, hfold, hrest, hread⟩ := ih (written ++ unlines
          ((stackHeading ++ Nat.toDigits 10 id) :: (lines ++ [[]])))
        refine ⟨(stackHeading ++ Nat.toDigits 10 id) :: (lines ++ [] :: rest), ?_, ?_, ?_⟩
        · rw [List.foldlM_cons, hwrite, Option.bind_eq_bind, Option.bind_some, hfold,
            List.append_assoc, ← unlines_append, List.cons_append, List.append_assoc]
          rfl
        · simp only [List.forall_mem_cons, List.forall_mem_append]
          exact ⟨newline_notMem_heading id, fun line h => (hline line h).1, List.not_mem_nil, hrest⟩
        · rw [readStacks_entry id (fun line h => (hline line h).2) haddresses, hread]
  obtain ⟨lines, hlog, hline, hread⟩ := hlines []
  refine ⟨unlines lines, by rw [stackLogText, hlog]; rfl, ?_⟩
  rw [readStackLog, readlines_unlines hline, hread]

theorem rtakeWhile_append {p : Char → Bool} {text : List Char} (h : ∀ c ∈ text, p c = true)
    {c : Char} (hc : p c = false) (before : List Char) :
    (before ++ c :: text).rtakeWhile p = text := by
  have hreverse : ∀ c ∈ text.reverse, p c = true := fun c hc => h c (List.mem_reverse.mp hc)
  rw [List.rtakeWhile, List.reverse_append, List.reverse_cons, List.append_assoc,
    List.takeWhile_append_of_pos hreverse, List.singleton_append,
    List.takeWhile_cons_of_neg (by simp [hc]), List.append_nil, List.reverse_reverse]

theorem mappingId_text (line : LogLine) : mappingId line.text = line.stackTraceId? := by
  cases line with
  | map time ret len stackTraceId =>
      have htext : (LogLine.map time ret len stackTraceId).text = [general time, " MAP: ".toList,
          pointerText ret, " (".toList, Nat.toDigits 10 len.toNat,
          " bytes) stackTrace".toList].flatten ++ '=' :: Nat.toDigits 10 stackTraceId := by
        simp [LogLine.text]
      rw [htext, mappingId, rtakeWhile_append isDigit_of_mem (by decide),
        if_neg Nat.toDigits_ne_nil, value_toDigits (by decide) (by decide)]
      rfl
  | unmap time addr length =>
      have htext : (LogLine.unmap time addr length).text = [general time, " UNMAP: ".toList,
          pointerText addr, " (".toList, Nat.toDigits 10 length.toNat,
          " bytes".toList].flatten ++ [')'] := by simp [LogLine.text]
      rw [htext, mappingId, rtakeWhile_append (List.forall_mem_nil _) (by decide)]
      rfl
  | unmapFailed time addr length =>
      have htext : (LogLine.unmapFailed time addr length).text = [general time,
          " ERROR: UNMAP FAILED: ".toList, pointerText addr, " (".toList,
          Nat.toDigits 10 length.toNat, " bytes".toList].flatten ++ [')'] := by simp [LogLine.text]
      rw [htext, mappingId, rtakeWhile_append (List.forall_mem_nil _) (by decide)]
      rfl

theorem mappingIds_eventLogText (lines : List LogLine) :
    mappingIds (eventLogText lines) = lines.filterMap LogLine.stackTraceId? := by
  have htext : eventLogText lines = unlines (lines.map LogLine.text) := by
    rw [unlines, List.flatMap_map]
    rfl
  have hline : ∀ line ∈ lines.map LogLine.text, '\n' ∉ line :=
    List.forall_mem_map.mpr fun line _ => line.newline_notMem_text
  rw [mappingIds, htext, readlines_unlines hline, List.filterMap_map]
  exact List.filterMap_congr fun line _ => mappingId_text line

namespace Wrapper

open FirstAppearances

variable {pageSize : UInt64} {w : Wrapper} {calls : List Call}

/-- In a run that ends, the stack log reads back as the first captured stack trace of
each hash under its id. With it the event log tells the stack of every logged mapping
exactly when no two different captured ones have the same hash. -/
theorem logs_read_back (linker : Linker) (hrun : run pageSize calls = some w) :
    ∃ text, stackLogText linker w.stackLog = some text ∧
      readStackLog text =
        ((firstsBy StackTrace.hash (captured calls)).zipIdx 1).map Prod.swap ∧
      ((mappingIds (eventLogText w.eventLog)).map (fun id => (readStackLog text).lookup id) =
          (captured calls).map some ↔
        ∀ trace ∈ captured calls, ∀ trace' ∈ captured calls, trace.hash = trace'.hash →
          trace = trace') := by
  obtain ⟨hn, hi⟩ := books_run calls hrun
  obtain ⟨text, htext, hread⟩ := exists_stackLogText linker w.stackLog
  rw [hi.logged] at hread
  refine ⟨text, htext, hread, ?_⟩
  rw [mappingIds_eventLogText]
  change w.stackTraceIds.map _ = _ ↔ _
  constructor
  · intro hlookup trace htrace trace' htrace' hhash
    obtain ⟨i, hi⟩ := List.mem_iff_getElem?.mp htrace
    obtain ⟨j, hj⟩ := List.mem_iff_getElem?.mp htrace'
    have hsame := (hn.same_id_iff hi hj).mpr hhash
    have hlookups := congrArg (fun l => (l[i]?, l[j]?)) hlookup
    simp only [List.getElem?_map, hi, hj, hsame, Prod.mk.injEq, Option.map_some] at hlookups
    exact Option.some.inj (Option.some.inj (hlookups.1.symm.trans hlookups.2))
  · intro hinj
    have hinjOn : Set.InjOn StackTrace.hash {trace | trace ∈ captured calls} :=
      fun trace htrace trace' htrace' => hinj trace htrace trace' htrace'
    rw [hread, hn.ids_eq hinjOn, firstsBy_eq_eraseDups hinjOn, List.map_map]
    exact List.map_congr_left fun trace htrace => lookup_rank htrace

/-- The first page of a file is loaded at `0x400000`, and has one symbol. -/
def oneFile : Linker where
  archName := "x86_64".toList
  dladdr _ a :=
    if 0x401000 ≤ a then some ⟨some "a.out".toList, 0x400000, some "main".toList, 0x401000⟩ else none
  fbase_le := by
    intro id a info h hname
    split_ifs at h with ha
    rw [← Option.some.inj h]
    exact UInt64.le_trans (by decide) ha
  saddr_le := by
    intro id a info h hname
    split_ifs at h with ha
    rw [← Option.some.inj h]
    exact ha
  archName_line := by decide
  fname_line := by
    intro id a info h name hname
    split_ifs at h
    rw [← Option.some.inj h] at hname
    exact Option.some.inj hname ▸ by decide
  sname_line := by
    intro id a info h name hname
    split_ifs at h
    rw [← Option.some.inj h] at hname
    exact Option.some.inj hname ▸ by decide

example : stackLogText oneFile [(1, ⟨[0x401010, 0x2a]⟩)] = some ("New stack trace: 1\n" ++
    "    #0 0x401010 in main+16 (a.out:x86_64+0x1010)\n" ++
    "    #1 0x2a [GARBAGE]\n\n").toList := by decide +kernel

theorem logs_read_back_twoStacks :
    ∃ w text, run 4096 (twoStacks [0x401000, 0x402000] [0x401800, 0x402000]) = some w ∧
      stackLogText oneFile w.stackLog = some text ∧
      readStackLog text = ((firstsBy StackTrace.hash
        (captured (twoStacks [0x401000, 0x402000] [0x401800, 0x402000]))).zipIdx 1).map Prod.swap ∧
      ((mappingIds (eventLogText w.eventLog)).map (fun id => (readStackLog text).lookup id) =
          (captured (twoStacks [0x401000, 0x402000] [0x401800, 0x402000])).map some ↔
        ∀ trace ∈ captured (twoStacks [0x401000, 0x402000] [0x401800, 0x402000]),
          ∀ trace' ∈ captured (twoStacks [0x401000, 0x402000] [0x401800, 0x402000]),
            trace.hash = trace'.hash → trace = trace') := by
  have hrun : (run 4096 (twoStacks [0x401000, 0x402000] [0x401800, 0x402000])).isSome := by
    decide +kernel
  obtain ⟨w, hw⟩ := Option.isSome_iff_exists.mp hrun
  obtain ⟨text, hlogs⟩ := logs_read_back oneFile hw
  exact ⟨w, text, hw, hlogs⟩

end Wrapper

end MmapCounter

end AllocCounter
