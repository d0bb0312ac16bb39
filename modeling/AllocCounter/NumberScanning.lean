import AllocCounter.NumberTexts

/-!
# Numbers at the head of a text

What `strtol` and the conversions of `scanf` read: white space is skipped, one sign is
taken, and then as many decimal digits as there are. A number that does not fit is
replaced by the last one that does.
-/
namespace AllocCounter.NumberScanning

open NumberTexts

/-- `isspace` in the C locale. -/
def isSpace (c : Char) : Bool := c = ' ' || ('\t' ≤ c && c ≤ '\r')

/-- The sign of a text, and what follows it. -/
def sign : List Char → Bool × List Char
  | '-' :: rest => (true, rest)
  | '+' :: rest => (false, rest)
  | rest => (false, rest)

/-- Whether the number is negated, and its digits. -/
def scan (text : List Char) : Option (Bool × ℕ) :=
  let signed := sign (text.dropWhile isSpace)
  let digits := signed.2.takeWhile Char.isDigit
  if digits = [] then none else some (signed.1, value 10 digits)

/-- `strtol` in base ten, where a `long` has this many bits. -/
def strtol (bits : ℕ) (text : List Char) : ℤ :=
  match scan text with
  | none => 0
  | some (true, n) => -(min n (2 ^ (bits - 1)) : ℕ)
  | some (false, n) => (min n (2 ^ (bits - 1) - 1) : ℕ)

/-- The conversion of `scanf` to 64 bits without a sign. There is nothing to assign
where there is no digit. -/
def strtoull (text : List Char) : Option UInt64 :=
  match scan text with
  | none => none
  | some (negated, n) =>
      if 2 ^ 64 ≤ n then some (UInt64.ofNat (2 ^ 64 - 1))
      else some (if negated then -UInt64.ofNat n else UInt64.ofNat n)

variable {blanks digits rest text : List Char}

theorem sign_of_isDigit (h : ∀ c ∈ text.head?, c.isDigit = true) : sign text = (false, text) := by
  unfold sign
  split
  · exact absurd (h '-' rfl) (by decide)
  · exact absurd (h '+' rfl) (by decide)
  · rfl

theorem not_isSpace_of_isDigit {c : Char} (h : c.isDigit = true) : isSpace c = false := by
  simp only [Char.isDigit, ge_iff_le, Bool.and_eq_true, decide_eq_true_eq,
    UInt32.le_iff_toNat_le] at h
  have hlo : 48 ≤ c.val.toNat := h.1
  rw [isSpace, Bool.or_eq_false_iff, decide_eq_false_iff_not, Bool.and_eq_false_imp]
  refine ⟨fun heq => ?_, fun _ => decide_eq_false fun hle => ?_⟩
  · rw [heq] at hlo
    exact absurd hlo (by decide)
  · have hhi : c.val.toNat ≤ 13 := UInt32.le_iff_toNat_le.mp hle
    omega

theorem dropWhile_blanks (hblanks : ∀ c ∈ blanks, isSpace c = true)
    (hdigits : ∀ c ∈ digits, c.isDigit = true) (hne : digits ≠ []) :
    (blanks ++ (digits ++ rest)).dropWhile isSpace = digits ++ rest := by
  rw [List.dropWhile_append_of_pos hblanks]
  cases digits with
  | nil => exact absurd rfl hne
  | cons c digits =>
      have hc := not_isSpace_of_isDigit (hdigits c List.mem_cons_self)
      rw [List.cons_append, List.dropWhile_cons_of_neg (by simp [hc])]

theorem takeWhile_digits (hdigits : ∀ c ∈ digits, c.isDigit = true)
    (hrest : ∀ c ∈ rest.head?, c.isDigit = false) :
    (digits ++ rest).takeWhile Char.isDigit = digits := by
  rw [List.takeWhile_append_of_pos hdigits]
  cases rest with
  | nil => simp
  | cons c rest => rw [List.takeWhile_cons_of_neg (by simp [hrest c rfl]), List.append_nil]

/-- A number that stands alone is read. -/
theorem scan_digits (hblanks : ∀ c ∈ blanks, isSpace c = true)
    (hdigits : ∀ c ∈ digits, c.isDigit = true) (hne : digits ≠ [])
    (hrest : ∀ c ∈ rest.head?, c.isDigit = false) :
    scan (blanks ++ (digits ++ rest)) = some (false, value 10 digits) := by
  have hhead : ∀ c ∈ (digits ++ rest).head?, c.isDigit = true := by
    cases digits with
    | nil => exact absurd rfl hne
    | cons c digits => simpa using hdigits c List.mem_cons_self
  simp [scan, dropWhile_blanks hblanks hdigits hne, sign_of_isDigit hhead,
    takeWhile_digits hdigits hrest, hne]

theorem scan_toDigits (hblanks : ∀ c ∈ blanks, isSpace c = true) (n : ℕ)
    (hrest : ∀ c ∈ rest.head?, c.isDigit = false) :
    scan (blanks ++ (Nat.toDigits 10 n ++ rest)) = some (false, n) := by
  rw [scan_digits hblanks isDigit_of_mem Nat.toDigits_ne_nil hrest,
    value_toDigits (by decide) (by decide)]

theorem strtol_toDigits (hblanks : ∀ c ∈ blanks, isSpace c = true) {bits n : ℕ}
    (hn : n < 2 ^ (bits - 1)) (hrest : ∀ c ∈ rest.head?, c.isDigit = false) :
    strtol bits (blanks ++ (Nat.toDigits 10 n ++ rest)) = n := by
  rw [strtol, scan_toDigits hblanks n hrest]
  exact congrArg (Nat.cast : ℕ → ℤ) (Nat.min_eq_left (Nat.le_sub_one_of_lt hn))

theorem strtoull_toDigits (hblanks : ∀ c ∈ blanks, isSpace c = true) (n : UInt64)
    (hrest : ∀ c ∈ rest.head?, c.isDigit = false) :
    strtoull (blanks ++ (Nat.toDigits 10 n.toNat ++ rest)) = some n := by
  rw [strtoull, scan_toDigits hblanks n.toNat hrest]
  simp [Nat.not_le.mpr n.toNat_lt]

end AllocCounter.NumberScanning
