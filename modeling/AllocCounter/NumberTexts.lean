import Mathlib.Data.Int.Log
import Mathlib.Data.List.DropRight
import Mathlib.Data.NNRat.Floor
import Mathlib.Tactic.NormNum
import Mathlib.Tactic.Linarith

/-!
# Texts of numbers

Digits in a base up to sixteen and their value, and the format `%g` of `printf`
with six significant digits for a non-negative number: the number is rounded to
six digits, halves to even, its decimal exponent decides between fixed and
scientific notation, and trailing zeros are dropped.
-/
namespace AllocCounter.NumberTexts

def isHexDigit (c : Char) : Bool := c.isDigit || ('a' ≤ c && c ≤ 'f') || ('A' ≤ c && c ≤ 'F')

def digitValue (c : Char) : ℕ :=
  if c.isDigit then c.toNat - '0'.toNat
  else if 'a' ≤ c then c.toNat - 'a'.toNat + 10
  else c.toNat - 'A'.toNat + 10

/-- The value of a text of digits. -/
def value (base : ℕ) (text : List Char) : ℕ := text.foldl (fun v c => base * v + digitValue c) 0

theorem digitValue_digitChar : ∀ d < 16, digitValue d.digitChar = d := by decide

theorem isHexDigit_digitChar : ∀ d < 16, isHexDigit d.digitChar = true := by decide

theorem value_toDigits {base : ℕ} (hlo : 1 < base) (hhi : base ≤ 16) (n : ℕ) :
    value base (Nat.toDigits base n) = n := by
  induction n using Nat.strong_induction_on with
  | _ n ih =>
      rw [Nat.toDigits_eq_if hlo]
      split_ifs with hn
      · rw [value, List.foldl_cons, List.foldl_nil, digitValue_digitChar n (hn.trans_le hhi),
          Nat.mul_zero, Nat.zero_add]
      · have hmod := Nat.mod_lt n (Nat.zero_lt_of_lt hlo)
        have hrec := ih (n / base) (Nat.div_lt_self (by omega) hlo)
        rw [value] at hrec
        rw [value, List.foldl_append, hrec, List.foldl_cons, List.foldl_nil,
          digitValue_digitChar _ (hmod.trans_le hhi), Nat.div_add_mod]

theorem isDigit_of_mem {n : ℕ} : ∀ c ∈ Nat.toDigits 10 n, c.isDigit = true :=
  fun _ => Nat.isDigit_of_mem_toDigits (by omega) (by omega)

theorem isHexDigit_of_mem {n : ℕ} : ∀ c ∈ Nat.toDigits 16 n, isHexDigit c = true := by
  induction n using Nat.strong_induction_on with
  | _ n ih =>
      intro c hc
      rw [Nat.toDigits_eq_if (by omega)] at hc
      split_ifs at hc with hn
      · rw [List.mem_singleton.mp hc]
        exact isHexDigit_digitChar n hn
      · cases List.mem_append.mp hc with
        | inl hc => exact ih (n / 16) (Nat.div_lt_self (by omega) (by omega)) c hc
        | inr hc =>
            rw [List.mem_singleton.mp hc]
            exact isHexDigit_digitChar _ (Nat.mod_lt n (by omega))

def roundHalfEven (q : ℚ≥0) : ℕ :=
  let n := ⌊q⌋₊
  if q < n + 1 / 2 then n
  else if q = n + 1 / 2 ∧ n % 2 = 0 then n
  else n + 1

/-- The six significant digits as a number, and the decimal exponent of the
first one. -/
def scientific (t : ℚ≥0) : ℕ × ℤ :=
  let exponent := Int.log 10 t
  let digits := roundHalfEven (t * 10 ^ (5 - exponent))
  if digits = 10 ^ 6 then (10 ^ 5, exponent + 1) else (digits, exponent)

def padded (width n : ℕ) : List Char :=
  let digits := Nat.toDigits 10 n
  List.replicate (width - digits.length) '0' ++ digits

def withFraction (whole fraction : List Char) : List Char :=
  let fraction := fraction.rdropWhile fun c => c = '0'
  if fraction = [] then whole else whole ++ '.' :: fraction

/-- The number is printed without an exponent. -/
def Fixed (t : ℚ≥0) : Prop := t = 0 ∨ -4 ≤ (scientific t).2 ∧ (scientific t).2 < 6

instance (t : ℚ≥0) : Decidable (Fixed t) := inferInstanceAs (Decidable (_ ∨ _ ∧ _))

/-- The format `%g`. -/
def general (t : ℚ≥0) : List Char :=
  if t = 0 then ['0']
  else
    let digits := (scientific t).1
    let exponent := (scientific t).2
    if Fixed t then
      let places := (5 - exponent).toNat
      withFraction (Nat.toDigits 10 (digits / 10 ^ places)) (padded places (digits % 10 ^ places))
    else
      withFraction (Nat.toDigits 10 (digits / 10 ^ 5)) (padded 5 (digits % 10 ^ 5)) ++
        'e' :: (if exponent < 0 then '-' else '+') :: padded 2 exponent.natAbs

example : general (123456 / 1000) = "123.456".toList ∧ general 1234567 = "1.23457e+06".toList ∧
    general (1 / 8) = "0.125".toList ∧ general 1000 = "1000".toList := by decide +kernel

/-- Rounding carries over to the next power of ten from half a unit below it on. -/
theorem roundHalfEven_eq_iff {n : ℕ} (hodd : n % 2 = 1) {q : ℚ≥0} (hq : q < n + 1) :
    roundHalfEven q = n + 1 ↔ n + 1 / 2 ≤ q := by
  have hfloor : ⌊q⌋₊ ≤ n :=
    Nat.lt_succ_iff.mp ((Nat.floor_lt' (by omega)).mpr (by exact_mod_cast hq))
  unfold roundHalfEven
  constructor
  · intro h
    by_contra hlt
    rw [not_le] at hlt
    have hn : ⌊q⌋₊ = n := by
      dsimp only at h
      split_ifs at h <;> omega
    dsimp only at h
    rw [hn, if_pos hlt] at h
    omega
  · intro h
    have hn : ⌊q⌋₊ = n := by
      apply le_antisymm hfloor
      apply Nat.le_floor
      exact (le_add_of_nonneg_right (by positivity)).trans h
    dsimp only
    rw [hn, if_neg (not_lt.mpr h), if_neg (by omega)]

theorem scientific_exponent (t : ℚ≥0) :
    (scientific t).2 =
      if (999999.5 : ℚ≥0) ≤ t * 10 ^ (5 - Int.log 10 t) then Int.log 10 t + 1 else Int.log 10 t := by
  have hten : (10 : ℚ≥0) ≠ 0 := by norm_num
  have hlt : t * 10 ^ (5 - Int.log 10 t) < ((999999 : ℕ) : ℚ≥0) + 1 := by
    have hlog : t < (10 : ℚ≥0) ^ (Int.log 10 t + 1) := by
      exact_mod_cast Int.lt_zpow_succ_log_self (b := 10) (by omega) t
    calc t * 10 ^ (5 - Int.log 10 t)
        < 10 ^ (Int.log 10 t + 1) * 10 ^ (5 - Int.log 10 t) :=
          mul_lt_mul_of_pos_right hlog (zpow_pos (by positivity) _)
      _ = 10 ^ (6 : ℤ) := by
          rw [← zpow_add₀ hten]
          congr 1
          omega
      _ = ((999999 : ℕ) : ℚ≥0) + 1 := by norm_num
  have hround := roundHalfEven_eq_iff (n := 999999) (by omega) hlt
  have hhalf : ((999999 : ℕ) : ℚ≥0) + 1 / 2 = 999999.5 := by norm_num
  rw [hhalf] at hround
  unfold scientific
  dsimp only
  by_cases h : (999999.5 : ℚ≥0) ≤ t * 10 ^ (5 - Int.log 10 t)
  · rw [if_pos h, if_pos (by simpa using hround.mpr h)]
  · rw [if_neg h, if_neg fun heq => h (hround.mp (by simpa using heq))]

/-- Exactly the numbers that six digits round into `[0.0001, 999999]` are printed
without an exponent. -/
theorem fixed_iff (t : ℚ≥0) : Fixed t ↔ t = 0 ∨ 9.999995e-5 ≤ t ∧ t < 999999.5 := by
  unfold Fixed
  apply or_congr_right'
  intro hne
  have ht : 0 < t := pos_iff_ne_zero.mpr hne
  have hlo : (10 : ℚ≥0) ^ Int.log 10 t ≤ t := by
    exact_mod_cast Int.zpow_log_le_self (b := 10) (by omega) ht
  have hhi : t < (10 : ℚ≥0) ^ (Int.log 10 t + 1) := by
    exact_mod_cast Int.lt_zpow_succ_log_self (b := 10) (by omega) t
  have hmono : ∀ {a b : ℤ}, a ≤ b → (10 : ℚ≥0) ^ a ≤ 10 ^ b :=
    fun h => zpow_le_zpow_right₀ (by norm_num) h
  rw [scientific_exponent]
  generalize hlog : Int.log 10 t = e at *
  apply and_congr
  · rcases lt_trichotomy e (-5) with h | h | h
    · have hsmall : t < 10 ^ (-5 : ℤ) := hhi.trans_le (hmono (by omega))
      have hbelow : ¬ (9.999995e-5 : ℚ≥0) ≤ t := 
        not_le.mpr (hsmall.trans_le (by decide +kernel))
      simp only [hbelow, iff_false]
      split_ifs <;> omega
    · subst h
      have hscale : (999999.5 : ℚ≥0) ≤ t * 10 ^ (5 - -5 : ℤ) ↔ (9.999995e-5 : ℚ≥0) ≤ t := by
        rw [← div_le_iff₀ (by positivity)]
        norm_num
      simp only [hscale]
      split_ifs with hge <;> simp [hge]
    · have hlarge : (10 : ℚ≥0) ^ (-4 : ℤ) ≤ t := (hmono (by omega)).trans hlo
      have habove : (9.999995e-5 : ℚ≥0) ≤ t := le_trans (by decide +kernel) hlarge
      simp only [habove, iff_true]
      split_ifs <;> omega
  · rcases lt_trichotomy e 5 with h | h | h
    · have hsmall : t < 10 ^ (5 : ℤ) := hhi.trans_le (hmono (by omega))
      have hbelow : t < 999999.5 := hsmall.trans (by norm_num)
      simp only [hbelow, iff_true]
      split_ifs <;> omega
    · subst h
      rw [sub_self, zpow_zero, mul_one]
      split_ifs with hge
      · simp [hge]
      · simpa using hge
    · have hlarge : (10 : ℚ≥0) ^ (6 : ℤ) ≤ t := (hmono (by omega)).trans hlo
      have habove : ¬ t < 999999.5 := not_lt.mpr (le_trans (by decide +kernel) hlarge)
      simp only [habove, iff_false]
      split_ifs <;> omega

theorem isDigit_of_mem_padded {width n : ℕ} : ∀ c ∈ padded width n, c.isDigit = true := by
  intro c hc
  cases List.mem_append.mp hc with
  | inl hzero =>
      rw [List.eq_of_mem_replicate hzero]
      rfl
  | inr hdigit => exact isDigit_of_mem c hdigit

/-- Digits, and after a point digits again if there are any. -/
def IsDecimal (text : List Char) : Prop :=
  ∃ whole fraction, whole ≠ [] ∧ (∀ c ∈ whole, Char.isDigit c = true) ∧
    (∀ c ∈ fraction, Char.isDigit c = true) ∧
    text = if fraction = [] then whole else whole ++ '.' :: fraction

theorem isDecimal_withFraction (n : ℕ) {fraction : List Char}
    (hfraction : ∀ c ∈ fraction, c.isDigit = true) :
    IsDecimal (withFraction (Nat.toDigits 10 n) fraction) := by
  refine ⟨Nat.toDigits 10 n, fraction.rdropWhile fun c => c = '0', Nat.toDigits_ne_nil,
    isDigit_of_mem, fun c hc => hfraction c ?_, rfl⟩
  exact (List.rdropWhile_prefix _ fraction).subset hc

theorem isDecimal_of_fixed {t : ℚ≥0} (h : Fixed t) : IsDecimal (general t) := by
  unfold general
  split_ifs with hzero
  · exact ⟨['0'], [], by simp, by simp, nofun, rfl⟩
  · exact isDecimal_withFraction _ isDigit_of_mem_padded

theorem IsDecimal.of_mem {text : List Char} (h : IsDecimal text) :
    ∀ c ∈ text, c.isDigit = true ∨ c = '.' := by
  obtain ⟨whole, fraction, -, hwhole, hfraction, rfl⟩ := h
  intro c hc
  split_ifs at hc
  · exact .inl (hwhole c hc)
  · cases List.mem_append.mp hc with
    | inl hc => exact .inl (hwhole c hc)
    | inr hc =>
        cases List.mem_cons.mp hc with
        | inl hpoint => exact .inr hpoint
        | inr hc => exact .inl (hfraction c hc)

theorem mem_e_of_not_fixed {t : ℚ≥0} (h : ¬ Fixed t) : 'e' ∈ general t := by
  have hzero : t ≠ 0 := fun heq => h (.inl heq)
  simp only [general, if_neg hzero, if_neg h]
  exact List.mem_append_right _ List.mem_cons_self

theorem of_mem_general (t : ℚ≥0) :
    ∀ c ∈ general t, c.isDigit = true ∨ c ∈ ['.', 'e', '+', '-'] := by
  intro c hc
  by_cases h : Fixed t
  · exact ((isDecimal_of_fixed h).of_mem c hc).imp_right fun heq => by simp [heq]
  · have hzero : t ≠ 0 := fun heq => h (.inl heq)
    simp only [general, if_neg hzero, if_neg h, List.mem_append, List.mem_cons] at hc
    rcases hc with hc | rfl | rfl | hc
    · exact ((isDecimal_withFraction _ isDigit_of_mem_padded).of_mem c hc).imp_right
        fun heq => by simp [heq]
    · exact .inr (by simp)
    · right
      split_ifs <;> simp
    · exact .inl (isDigit_of_mem_padded c hc)

end AllocCounter.NumberTexts
