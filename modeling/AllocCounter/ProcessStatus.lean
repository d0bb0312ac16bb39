import AllocCounter.NumberScanning
import AllocCounter.StackLog

/-!
# The status of a process

`libmallinfo-log.cpp` reads the resident memory of its process in
`/proc/self/status`: each line is tried with one format of `sscanf` for each of two
fields, and a line that does not match leaves what was read before. The text is a
list of fields, each on a line of its own.
-/
namespace AllocCounter.MallinfoLog

open NumberScanning MmapCounter ParseMmapLog RegularExpressions

def UINT64_MAX : UInt64 := 0xffffffffffffffff

/-- Both are in units of 1024 bytes. -/
structure ProcessStatus where
  VmRSS : UInt64 := UINT64_MAX
  RssAnon : UInt64 := UINT64_MAX
deriving DecidableEq, Repr

def vmRSS : List Char := ['V', 'm', 'R', 'S', 'S']

def rssAnon : List Char := ['R', 's', 's', 'A', 'n', 'o', 'n']

/-- `sscanf` with the format of a field. What stands after the number in the format
changes nothing. -/
def sscanf (name line : List Char) : Option UInt64 :=
  if (name ++ [':']).isPrefixOf line then strtoull (line.drop (name.length + 1)) else none

def readLine (ret : ProcessStatus) (line : List Char) : ProcessStatus where
  VmRSS := (sscanf vmRSS line).getD ret.VmRSS
  RssAnon := (sscanf rssAnon line).getD ret.RssAnon

/-- `none` is the exception. -/
def readProcessStatus (file : List Char) : Option ProcessStatus :=
  let ret := (readlines file).foldl readLine {}
  if ret.RssAnon = UINT64_MAX ∨ ret.VmRSS = UINT64_MAX then none else some ret

/-- A name and the text of its value. -/
abbrev Field := List Char × List Char

def fieldLine (f : Field) : List Char := f.1 ++ ':' :: '\t' :: f.2

def statusText (fields : List Field) : List Char := unlines (fields.map fieldLine)

/-- A size as the kernel prints it, to the right of eight places. -/
def kiloBytes (n : UInt64) : List Char :=
  let digits := Nat.toDigits 10 n.toNat
  List.replicate (8 - digits.length) ' ' ++ digits ++ " kB".toList

/-- The names are distinct, and the two fields that are read are sizes. -/
structure IsStatus (fields : List Field) : Prop where
  names : (fields.map Prod.fst).Nodup
  colon : ∀ f ∈ fields, ':' ∉ f.1
  line : ∀ f ∈ fields, '\n' ∉ fieldLine f
  sizes : ∀ f ∈ fields, f.1 = vmRSS ∨ f.1 = rssAnon → ∃ n, n ≠ UINT64_MAX ∧ f.2 = kiloBytes n

variable {fields : List Field} {name : List Char} {f : Field}

theorem strtoull_kiloBytes (n : UInt64) : strtoull ('\t' :: (kiloBytes n ++ ['\n'])) = some n := by
  have hblanks : ∀ c ∈ '\t' :: List.replicate (8 - (Nat.toDigits 10 n.toNat).length) ' ',
      isSpace c = true := by
    intro c hc
    cases List.mem_cons.mp hc with
    | inl h => exact h ▸ by decide
    | inr h => exact (List.mem_replicate.mp h).2 ▸ by decide
  have hunit : ∀ c ∈ (" kB".toList ++ ['\n']).head?, c.isDigit = false := by simp
  have hread := strtoull_toDigits hblanks n hunit
  simpa [kiloBytes] using hread

/-- A line gives a field exactly when it is the line of that field. -/
theorem sscanf_fieldLine (hname : ':' ∉ name) (hf : ':' ∉ f.1) :
    sscanf name (fieldLine f ++ ['\n']) =
      if f.1 = name then strtoull ('\t' :: (f.2 ++ ['\n'])) else none := by
  have hline : fieldLine f ++ ['\n'] = f.1 ++ ':' :: ('\t' :: (f.2 ++ ['\n'])) := by
    simp [fieldLine]
  rw [hline]
  by_cases heq : f.1 = name
  · have hprefix : (name ++ [':']).isPrefixOf (name ++ ':' :: ('\t' :: (f.2 ++ ['\n']))) = true :=
      List.isPrefixOf_iff_prefix.mpr ⟨'\t' :: (f.2 ++ ['\n']), by simp⟩
    rw [if_pos heq, heq, sscanf, if_pos hprefix]
    simp [List.drop_append, List.drop_eq_nil_of_le]
  · rw [if_neg heq, sscanf, if_neg]
    intro hprefix
    obtain ⟨rest, hrest⟩ := List.isPrefixOf_iff_prefix.mp hprefix
    rw [List.append_assoc, List.singleton_append] at hrest
    exact heq (append_sep_inj hname hf hrest).1.symm

/-- What is assigned again and again is what was assigned last. -/
theorem foldl_getD {α β : Type*} (g : α → Option β) (l : List α) (b : β) :
    l.foldl (fun v a => (g a).getD v) b = ((l.filterMap g).getLast?).getD b := by
  induction l using List.reverseRecOn with
  | nil => rfl
  | append_singleton l a ih =>
      rw [List.foldl_append, ih, List.filterMap_append]
      cases ha : g a with
      | none => simp [ha]
      | some v => simp [ha]

theorem foldl_readLine (lines : List (List Char)) (ret : ProcessStatus) :
    lines.foldl readLine ret =
      { VmRSS := ((lines.filterMap (sscanf vmRSS)).getLast?).getD ret.VmRSS
        RssAnon := ((lines.filterMap (sscanf rssAnon)).getLast?).getD ret.RssAnon } := by
  rw [← foldl_getD, ← foldl_getD]
  induction lines generalizing ret with
  | nil => rfl
  | cons line lines ih => simp only [List.foldl_cons, ih]; rfl

theorem readlines_statusText (h : ∀ f ∈ fields, '\n' ∉ fieldLine f) :
    readlines (statusText fields) = fields.map fun f => fieldLine f ++ ['\n'] := by
  rw [statusText, unlines, readlines_lines (List.forall_mem_map.mpr h), List.map_map]
  rfl

theorem filterMap_sscanf_of_notMem (hname : ':' ∉ name) (hcolon : ∀ f ∈ fields, ':' ∉ f.1)
    (hnot : name ∉ fields.map Prod.fst) :
    (fields.map fun f => fieldLine f ++ ['\n']).filterMap (sscanf name) = [] := by
  rw [List.filterMap_map, List.filterMap_eq_nil_iff]
  intro f hf
  rw [Function.comp_apply, sscanf_fieldLine hname (hcolon f hf), if_neg]
  exact fun heq => hnot (heq ▸ List.mem_map_of_mem hf)

/-- The values that the lines give for a field: there is one of its name at most. -/
theorem filterMap_sscanf (hname : ':' ∉ name) (hcolon : ∀ f ∈ fields, ':' ∉ f.1)
    (hnames : (fields.map Prod.fst).Nodup) {n : UInt64} (hmem : (name, kiloBytes n) ∈ fields) :
    (fields.map fun f => fieldLine f ++ ['\n']).filterMap (sscanf name) = [n] := by
  obtain ⟨before, after, rfl⟩ := List.append_of_mem hmem
  rw [List.map_append, List.map_cons, List.nodup_append, List.nodup_cons] at hnames
  have hbefore : name ∉ before.map Prod.fst := fun h =>
    hnames.2.2 name h name List.mem_cons_self rfl
  rw [List.map_append, List.filterMap_append, List.map_cons, List.filterMap_cons,
    filterMap_sscanf_of_notMem hname (fun f hf => hcolon f (List.mem_append_left _ hf)) hbefore,
    filterMap_sscanf_of_notMem hname
      (fun f hf => hcolon f (List.mem_append_right _ (List.mem_cons_of_mem _ hf))) hnames.2.1.1,
    sscanf_fieldLine hname (hcolon _ hmem), if_pos rfl, strtoull_kiloBytes]
  rfl

theorem colon_notMem : ':' ∉ vmRSS ∧ ':' ∉ rssAnon := by decide

/-- What is read for one of the two fields: its size, or nothing. -/
theorem getLast?_sscanf (h : IsStatus fields) (hname : name = vmRSS ∨ name = rssAnon) (n : UInt64) :
    (((fields.map fun f => fieldLine f ++ ['\n']).filterMap (sscanf name)).getLast?).getD
        UINT64_MAX = n ∧ n ≠ UINT64_MAX ↔ (name, kiloBytes n) ∈ fields := by
  have hcolon : ':' ∉ name := by
    cases hname with
    | inl heq => exact heq ▸ colon_notMem.1
    | inr heq => exact heq ▸ colon_notMem.2
  by_cases hmem : name ∈ fields.map Prod.fst
  · obtain ⟨⟨name', text⟩, hf, rfl⟩ := List.mem_map.mp hmem
    obtain ⟨m, hm, rfl⟩ := h.sizes _ hf hname
    rw [filterMap_sscanf hcolon h.colon h.names hf]
    constructor
    · rintro ⟨rfl, -⟩
      exact hf
    · intro hn
      have hsame : [m] = [n] :=
        (filterMap_sscanf hcolon h.colon h.names hf).symm.trans
          (filterMap_sscanf hcolon h.colon h.names hn)
      exact ⟨List.head_eq_of_cons_eq hsame, List.head_eq_of_cons_eq hsame ▸ hm⟩
  · rw [filterMap_sscanf_of_notMem hcolon h.colon hmem]
    constructor
    · rintro ⟨rfl, hne⟩
      exact absurd rfl hne
    · exact fun hn => absurd (List.mem_map_of_mem hn) hmem

/-- Of a status text the two sizes are read, and the exception is thrown when one of them
is missing. -/
theorem readProcessStatus_iff (h : IsStatus fields) (s : ProcessStatus) :
    readProcessStatus (statusText fields) = some s ↔
      (vmRSS, kiloBytes s.VmRSS) ∈ fields ∧ (rssAnon, kiloBytes s.RssAnon) ∈ fields := by
  rw [← getLast?_sscanf h (.inl rfl), ← getLast?_sscanf h (.inr rfl), readProcessStatus,
    readlines_statusText h.line, foldl_readLine]
  obtain ⟨VmRSS, RssAnon⟩ := s
  dsimp only
  generalize Option.getD _ _ = read, Option.getD _ _ = readAnon
  constructor
  · intro hread
    split_ifs at hread with hmax
    obtain ⟨rfl, rfl⟩ := ProcessStatus.mk.inj (Option.some.inj hread)
    exact ⟨⟨rfl, fun hv => hmax (.inr hv)⟩, rfl, fun ha => hmax (.inl ha)⟩
  · rintro ⟨⟨rfl, hv⟩, rfl, ha⟩
    rw [if_neg (not_or.mpr ⟨ha, hv⟩)]

/-- Some of the fields of a small process. -/
def smallStatus : List Field :=
  [("Name".toList, "cat".toList), (vmRSS, kiloBytes 1844), ("Threads".toList, ['1']),
    (rssAnon, kiloBytes 88)]

theorem isStatus_smallStatus : IsStatus smallStatus where
  names := by decide +kernel
  colon := by decide +kernel
  line := by decide +kernel
  sizes := by
    simp only [smallStatus, List.forall_mem_cons]
    refine ⟨?_, fun _ => ⟨1844, by decide, rfl⟩, ?_, fun _ => ⟨88, by decide, rfl⟩,
      List.forall_mem_nil _⟩
    · exact fun h => absurd h (by decide)
    · exact fun h => absurd h (by decide)

theorem readProcessStatus_iff_smallStatus :
    readProcessStatus (statusText smallStatus) = some ⟨1844, 88⟩ ↔
      (vmRSS, kiloBytes 1844) ∈ smallStatus ∧ (rssAnon, kiloBytes 88) ∈ smallStatus :=
  readProcessStatus_iff isStatus_smallStatus ⟨1844, 88⟩

end AllocCounter.MallinfoLog
