import AllocCounter.RegularExpressions
import AllocCounter.NumberTexts
import AllocCounter.MachineWords
import Mathlib.Data.List.Infix

/-!
# The parser of the event log

The first part of `parse-mmap-log.py`: the two regular expressions and
`parse_mmap_log`. Texts are lists of characters, integers are unbounded, and a
`float` is read as the decimal number in its text. Where the parser raises, the
result is `none`. So it is on the texts that the wrapper writes. On others Python
also takes digits that are not ASCII, `int` refuses thousands of digits, `float`
may round two decimal numbers to one, and `\r` ends a line too.
-/
namespace AllocCounter.ParseMmapLog

open RegularExpressions NumberTexts

inductive Event where
  | map (time : ℚ≥0) (pointer size stackTraceId lineNumber : ℕ)
  | unmap (time : ℚ≥0) (pointer size lineNumber : ℕ)
deriving DecidableEq

/-- `\d+\.?\d*`, with ASCII digits. -/
def number : List Item := [.plus Char.isDigit, .optional '.', .star Char.isDigit]

def reMap : List Part :=
  [.group number, .item (.text " MAP: 0x".toList), .group [.plus isHexDigit],
    .item (.text " (".toList), .group [.plus Char.isDigit],
    .item (.text " bytes) stackTrace=".toList), .group [.plus Char.isDigit]]

def reUnmap : List Part :=
  [.group number, .item (.text " UNMAP: 0x".toList), .group [.plus isHexDigit],
    .item (.text " (".toList), .group [.plus Char.isDigit], .item (.text " bytes)".toList)]

def roundUpPage (size : ℕ) : ℕ := (size + (4096 - 1)).ldiff (4096 - 1)

/-- The decimal number in a text. Those of at most 15 digits stay apart, and in order,
when they are rounded to the numbers of a `float`. -/
def float (text : List Char) : ℚ≥0 :=
  value 10 (text.filter fun c => c ≠ '.') /
    (10 : ℕ) ^ ((text.dropWhile fun c => c ≠ '.').length - 1)

/-- The two assertions about a size. -/
def checked (size : ℕ) : Option ℕ := if size &&& (4096 - 1) = 0 ∧ size ≠ 0 then some size else none

def parseLine (lineNumber : ℕ) (line : List Char) : Option Event :=
  if " MAP:".toList <:+: line then
    match match? reMap line with
    | some [time, pointer, size, stackTraceId] =>
        (checked (roundUpPage (value 10 size))).map fun size =>
          .map (float time) (value 16 pointer) size (value 10 stackTraceId) lineNumber
    | _ => none
  else if " UNMAP:".toList <:+: line then
    match match? reUnmap line with
    | some [time, pointer, size] =>
        (checked (roundUpPage (value 10 size))).map fun size =>
          .unmap (float time) (value 16 pointer) size lineNumber
    | _ => none
  else none

/-- The lines of a text without `\r`, with their ends. -/
def readlines : List Char → List (List Char)
  | [] => []
  | c :: rest =>
      if c = '\n' then ['\n'] :: readlines rest
      else
        match readlines rest with
        | [] => [[c]]
        | line :: lines => (c :: line) :: lines

def parseMmapLog (logFile : List Char) : Option (List Event) :=
  ((readlines logFile).zipIdx 1).mapM fun (line, lineNumber) =>
    if line.getLast? = some '\n' then parseLine lineNumber line.dropLast else none

theorem readlines_cons {line : List Char} (h : '\n' ∉ line) (rest : List Char) :
    readlines (line ++ '\n' :: rest) = (line ++ ['\n']) :: readlines rest := by
  induction line with
  | nil => simp [readlines]
  | cons c line ih =>
      have hc : c ≠ '\n' := fun heq => h (heq ▸ List.mem_cons_self)
      have hline : '\n' ∉ line := fun hm => h (List.mem_cons_of_mem _ hm)
      simp [readlines, hc, ih hline]

theorem readlines_lines {lines : List (List Char)} (h : ∀ line ∈ lines, '\n' ∉ line) :
    readlines (lines.flatMap fun line => line ++ ['\n']) = lines.map fun line => line ++ ['\n'] := by
  induction lines with
  | nil => rfl
  | cons line lines ih =>
      have hrest := ih fun l hl => h l (List.mem_cons_of_mem _ hl)
      rw [List.flatMap_cons, List.append_assoc, List.singleton_append,
        readlines_cons (h line List.mem_cons_self), hrest, List.map_cons]

/-- A log written line by line is parsed line by line. -/
theorem parseMmapLog_lines {lines : List (List Char)} (h : ∀ line ∈ lines, '\n' ∉ line) :
    parseMmapLog (lines.flatMap fun line => line ++ ['\n']) =
      (lines.zipIdx 1).mapM fun e => parseLine e.2 e.1 := by
  rw [parseMmapLog, readlines_lines h, List.zipIdx_map, List.mapM_map]
  congr
  funext e
  simp

theorem infix_append_iff {sep : Char} {t xs s : List Char} (h : sep ∉ xs) :
    sep :: t <:+: xs ++ s ↔ sep :: t <:+: s := by
  induction xs with
  | nil => rfl
  | cons c xs ih =>
      have hc : sep ≠ c := fun heq => h (heq ▸ List.mem_cons_self)
      have hxs : sep ∉ xs := fun hm => h (List.mem_cons_of_mem _ hm)
      rw [List.cons_append, List.infix_cons_iff, List.cons_prefix_cons, ih hxs]
      simp [hc]

theorem prefix_append_sep_iff {sep : Char} {t w s : List Char} (ht : sep ∉ t) :
    t <+: w ++ sep :: s ↔ t <+: w := by
  constructor
  · intro h
    have hword : w ++ [sep] <+: w ++ sep :: s := ⟨s, by simp⟩
    cases List.prefix_or_prefix_of_prefix h hword with
    | inl hshort =>
        cases List.prefix_concat_iff.mp hshort with
        | inl heq => exact absurd (heq ▸ List.mem_append_right _ List.mem_cons_self) ht
        | inr hw => exact hw
    | inr hlong =>
        exact absurd (hlong.subset (List.mem_append_right _ List.mem_cons_self)) ht
  · exact fun h => h.trans (List.prefix_append _ _)

/-- Whether a word of a line starts with a text. -/
theorem infix_words_iff {sep : Char} {t first : List Char} (ht : sep ∉ t) (hfirst : sep ∉ first)
    {words : List (List Char)} (hwords : ∀ w ∈ words, sep ∉ w) :
    sep :: t <:+: first ++ words.flatMap (fun w => sep :: w) ↔ ∃ w ∈ words, t <+: w := by
  rw [infix_append_iff hfirst]
  induction words with
  | nil => simp
  | cons w words ih =>
      have hw := hwords w List.mem_cons_self
      have hrest := ih fun v hv => hwords v (List.mem_cons_of_mem _ hv)
      have hstart : t <+: w ++ words.flatMap (fun w => sep :: w) ↔ t <+: w := by
        cases words with
        | nil => simp
        | cons v words => exact prefix_append_sep_iff ht
      rw [List.flatMap_cons, List.cons_append, List.infix_cons_iff, List.cons_prefix_cons,
        infix_append_iff hw, hrest, hstart]
      simp

theorem roundUpPage_eq (size : ℕ) : roundUpPage size = (size + 4095) / 4096 * 4096 :=
  ldiff_two_pow_sub_one (size + 4095) 12

theorem checked_roundUpPage (size : ℕ) :
    checked (roundUpPage size) = if size = 0 then none else some (roundUpPage size) := by
  have hmask : roundUpPage size &&& (4096 - 1) = 0 := by
    rw [roundUpPage_eq, Nat.and_two_pow_sub_one_eq_mod _ 12]
    omega
  have hzero : roundUpPage size = 0 ↔ size = 0 := by
    rw [roundUpPage_eq]
    omega
  unfold checked
  simp only [hmask, true_and, ne_eq, hzero]
  split_ifs <;> rfl

section Matching

variable {time : List Char}

theorem head?_number (h : IsDecimal time) {s : List Char}
    (hs : ∀ c ∈ s.head?, Char.isDigit c = false ∧ c ≠ '.') :
    (splits number (time ++ s)).head? = some (time, s) := by
  obtain ⟨whole, fraction, hne, hwhole, hfraction, rfl⟩ := h
  have hdigit : ∀ c ∈ s.head?, Char.isDigit c = false := fun c hc => (hs c hc).1
  split_ifs with hnil
  · have hplus := head?_plus hne hwhole hdigit
    have hopt := head?_optional_of_ne fun c hc => (hs c hc).2
    have hempty : ∀ c ∈ ([] : List Char), Char.isDigit c = true := nofun
    have hstar : ((Item.star Char.isDigit).splits s).head? = some ([], s) :=
      head?_greedy hempty hdigit
    have hend : (splits [] s).head? = some ([], s) := rfl
    have hrest := head?_splits_cons hopt (head?_splits_cons hstar hend)
    simpa [number] using head?_splits_cons hplus hrest
  · have hpoint : ∀ c ∈ ('.' :: (fraction ++ s)).head?, Char.isDigit c = false := by simp
    have hplus := head?_plus hne hwhole hpoint
    have hstar : ((Item.star Char.isDigit).splits (fraction ++ s)).head? = some (fraction, s) :=
      head?_greedy hfraction hdigit
    have hend : (splits [] s).head? = some ([], s) := rfl
    have hrest := head?_splits_cons (head?_optional '.' (fraction ++ s))
      (head?_splits_cons hstar hend)
    simpa [number] using head?_splits_cons hplus hrest

theorem head?_digits {p : Char → Bool} {digits s : List Char} (hne : digits ≠ [])
    (hdigits : ∀ c ∈ digits, p c = true) (hs : ∀ c ∈ s.head?, p c = false) :
    (splits [.plus p] (digits ++ s)).head? = some (digits, s) := by
  have hend : (splits [] s).head? = some ([], s) := rfl
  simpa using head?_splits_cons (head?_plus hne hdigits hs) hend

variable {pointer size id : List Char}

theorem match?_reMap (htime : IsDecimal time) (hpointer : pointer ≠ [])
    (hhex : ∀ c ∈ pointer, isHexDigit c = true) (hsize : size ≠ [])
    (hdigits : ∀ c ∈ size, c.isDigit = true) (hid : id ≠ [])
    (hiddigits : ∀ c ∈ id, c.isDigit = true) :
    match? reMap (time ++ (" MAP: 0x".toList ++ (pointer ++ (" (".toList ++
      (size ++ (" bytes) stackTrace=".toList ++ id)))))) = some [time, pointer, size, id] := by
  have hlast : (splits [.plus Char.isDigit] id).head? = some (id, []) := by
    have hend : ∀ c ∈ ([] : List Char).head?, Char.isDigit c = false := nofun
    simpa using head?_digits hid hiddigits hend
  apply match?_group (head?_number htime (by simp))
  rw [match?_text]
  apply match?_group (head?_digits hpointer hhex (by simp [isHexDigit]))
  rw [match?_text]
  apply match?_group (head?_digits hsize hdigits (by simp))
  rw [match?_text]
  exact match?_group hlast rfl

theorem match?_reUnmap (htime : IsDecimal time) (hpointer : pointer ≠ [])
    (hhex : ∀ c ∈ pointer, isHexDigit c = true) (hsize : size ≠ [])
    (hdigits : ∀ c ∈ size, c.isDigit = true) :
    match? reUnmap (time ++ (" UNMAP: 0x".toList ++ (pointer ++ (" (".toList ++
      (size ++ " bytes)".toList))))) = some [time, pointer, size] := by
  apply match?_group (head?_number htime (by simp))
  rw [match?_text]
  apply match?_group (head?_digits hpointer hhex (by simp [isHexDigit]))
  rw [match?_text]
  apply match?_group (head?_digits hsize hdigits (by simp))
  rfl

end Matching

end AllocCounter.ParseMmapLog
