import AllocCounter.LogParser
import Mathlib.Algebra.Order.Floor.Semiring

/-!
# Clocks that are printed and read back

A number printed with six significant digits and no exponent is read back as the
number that the digits show. Rounding to six digits keeps the order, so the times
of an event log come back in the order in which the clock was read.
-/
namespace AllocCounter

namespace NumberTexts

theorem floor_le_roundHalfEven (q : ℚ≥0) : ⌊q⌋₊ ≤ roundHalfEven q := by
  unfold roundHalfEven
  dsimp only
  split_ifs <;> omega

theorem roundHalfEven_le (q : ℚ≥0) : roundHalfEven q ≤ ⌊q⌋₊ + 1 := by
  unfold roundHalfEven
  dsimp only
  split_ifs <;> omega

theorem roundHalfEven_mono : Monotone roundHalfEven := by
  intro q r hqr
  cases (Nat.floor_mono hqr).lt_or_eq with
  | inl hlt => exact (roundHalfEven_le q).trans (hlt.trans_le (floor_le_roundHalfEven r))
  | inr heq =>
      -- between the same two integers the distance to the half decides
      unfold roundHalfEven
      dsimp only
      rw [heq]
      by_cases hr : r < ⌊r⌋₊ + 1 / 2
      · rw [if_pos hr, if_pos (hqr.trans_lt hr)]
      · rw [if_neg hr]
        by_cases hhalf : r = ⌊r⌋₊ + 1 / 2 ∧ ⌊r⌋₊ % 2 = 0
        · have hq : q < ⌊r⌋₊ + 1 / 2 ∨ q = ⌊r⌋₊ + 1 / 2 := (hqr.trans_eq hhalf.1).lt_or_eq
          rw [if_pos hhalf]
          split_ifs with hlt heven
          · rfl
          · rfl
          · exact absurd ⟨hq.resolve_left hlt, hhalf.2⟩ heven
        · rw [if_neg hhalf]
          split_ifs <;> omega

/-- The number that six significant digits show. -/
def rounded (t : ℚ≥0) : ℚ≥0 :=
  if t = 0 then 0 else (scientific t).1 * (10 : ℕ) ^ ((scientific t).2 - 5)

/-- A carry to the next power of ten shows the same number. -/
theorem rounded_eq {t : ℚ≥0} (ht : t ≠ 0) : rounded t =
    roundHalfEven (t * 10 ^ (5 - Int.log 10 t)) * 10 ^ (Int.log 10 t - 5) := by
  have hten : (10 : ℚ≥0) ≠ 0 := by norm_num
  rw [rounded, if_neg ht, scientific]
  split_ifs with hcarry
  · have hexp : Int.log 10 t + 1 - 5 = (Int.log 10 t - 5) + 1 := by ring
    rw [hcarry, hexp]
    push_cast
    rw [zpow_add_one₀ hten]
    ring
  · push_cast
    rfl

theorem scaled_bounds {t : ℚ≥0} (ht : t ≠ 0) :
    10 ^ 5 ≤ t * 10 ^ (5 - Int.log 10 t) ∧ t * 10 ^ (5 - Int.log 10 t) < 10 ^ 6 := by
  have hten : (10 : ℚ≥0) ≠ 0 := by norm_num
  have hlo : (10 : ℚ≥0) ^ Int.log 10 t ≤ t := by
    exact_mod_cast Int.zpow_log_le_self (b := 10) (by omega) (pos_iff_ne_zero.mpr ht)
  have hhi : t < (10 : ℚ≥0) ^ (Int.log 10 t + 1) := by
    exact_mod_cast Int.lt_zpow_succ_log_self (b := 10) (by omega) t
  have hpos : (0 : ℚ≥0) < 10 ^ (5 - Int.log 10 t) := zpow_pos (by positivity) _
  constructor
  · calc (10 : ℚ≥0) ^ 5 = 10 ^ Int.log 10 t * 10 ^ (5 - Int.log 10 t) := by
          rw [← zpow_add₀ hten, add_sub_cancel]
          rfl
      _ ≤ t * 10 ^ (5 - Int.log 10 t) := mul_le_mul_of_nonneg_right hlo hpos.le
  · calc t * 10 ^ (5 - Int.log 10 t)
        < 10 ^ (Int.log 10 t + 1) * 10 ^ (5 - Int.log 10 t) := mul_lt_mul_of_pos_right hhi hpos
      _ = 10 ^ (6 : ℤ) := by
          rw [← zpow_add₀ hten]
          congr 1
          ring
      _ = 10 ^ 6 := rfl

/-- The shown number has the decimal exponent of the number, or it is the next power of ten. -/
theorem rounded_bounds {t : ℚ≥0} (ht : t ≠ 0) :
    10 ^ Int.log 10 t ≤ rounded t ∧ rounded t ≤ 10 ^ (Int.log 10 t + 1) := by
  have hten : (10 : ℚ≥0) ≠ 0 := by norm_num
  have hpos : (0 : ℚ≥0) < 10 ^ (Int.log 10 t - 5) := zpow_pos (by positivity) _
  obtain ⟨hlo, hhi⟩ := scaled_bounds ht
  have hge : 10 ^ 5 ≤ roundHalfEven (t * 10 ^ (5 - Int.log 10 t)) := by
    refine le_trans (Nat.le_floor ?_) (floor_le_roundHalfEven _)
    exact_mod_cast hlo
  have hle : roundHalfEven (t * 10 ^ (5 - Int.log 10 t)) ≤ 10 ^ 6 := by
    refine (roundHalfEven_le _).trans ((Nat.floor_lt' (by norm_num)).mpr ?_)
    exact_mod_cast hhi
  rw [rounded_eq ht]
  constructor
  · calc (10 : ℚ≥0) ^ Int.log 10 t = 10 ^ 5 * 10 ^ (Int.log 10 t - 5) := by
          rw [← zpow_natCast, ← zpow_add₀ hten]
          congr 1
          push_cast
          ring
      _ ≤ _ := mul_le_mul_of_nonneg_right (by exact_mod_cast hge) hpos.le
  · calc (roundHalfEven (t * 10 ^ (5 - Int.log 10 t)) : ℚ≥0) * 10 ^ (Int.log 10 t - 5)
        ≤ 10 ^ 6 * 10 ^ (Int.log 10 t - 5) :=
          mul_le_mul_of_nonneg_right (by exact_mod_cast hle) hpos.le
      _ = 10 ^ (Int.log 10 t + 1) := by
          rw [← zpow_natCast, ← zpow_add₀ hten]
          congr 1
          push_cast
          ring

theorem rounded_mono : Monotone rounded := by
  intro t u htu
  by_cases ht : t = 0
  · rw [rounded, if_pos ht]
    exact zero_le
  have htpos : 0 < t := pos_iff_ne_zero.mpr ht
  have hu : u ≠ 0 := (htpos.trans_le htu).ne'
  have hlog : Int.log 10 t ≤ Int.log 10 u := Int.log_mono_right htpos htu
  cases hlog.lt_or_eq with
  | inl hlt =>
      calc rounded t ≤ 10 ^ (Int.log 10 t + 1) := (rounded_bounds ht).2
        _ ≤ 10 ^ Int.log 10 u := zpow_le_zpow_right₀ (by norm_num) hlt
        _ ≤ rounded u := (rounded_bounds hu).1
  | inr heq =>
      have hscaled : t * 10 ^ (5 - Int.log 10 u) ≤ u * 10 ^ (5 - Int.log 10 u) :=
        mul_le_mul_of_nonneg_right htu zero_le
      rw [rounded_eq ht, rounded_eq hu, heq]
      exact mul_le_mul_of_nonneg_right (by exact_mod_cast roundHalfEven_mono hscaled) zero_le

theorem value_append (base : ℕ) (l r : List Char) :
    value base (l ++ r) = value base l * base ^ r.length + value base r := by
  induction r using List.reverseRecOn with
  | nil => simp [value]
  | append_singleton r c ih =>
      simp only [value] at ih ⊢
      rw [← List.append_assoc, List.foldl_append, ih, List.foldl_append (l := r)]
      simp only [List.foldl_cons, List.foldl_nil, List.length_append, List.length_singleton]
      ring

theorem value_zeros (base : ℕ) {l : List Char} (h : ∀ c ∈ l, c = '0') : value base l = 0 := by
  induction l using List.reverseRecOn with
  | nil => rfl
  | append_singleton l c ih =>
      rw [value_append, ih fun d hd => h d (List.mem_append_left _ hd),
        h c (List.mem_append_right _ List.mem_cons_self), Nat.zero_mul, Nat.zero_add]
      simp [value, digitValue]

theorem value_padded (width n : ℕ) : value 10 (padded width n) = n := by
  rw [padded, value_append, value_zeros 10 fun c hc => List.eq_of_mem_replicate hc,
    value_toDigits (by decide) (by decide), Nat.zero_mul, Nat.zero_add]

theorem length_padded {width n : ℕ} (hwidth : 0 < width) (hn : n < 10 ^ width) :
    (padded width n).length = width := by
  have hle := (Nat.length_toDigits_le_iff (by decide) hwidth).mpr hn
  rw [padded, List.length_append, List.length_replicate]
  omega

end NumberTexts

namespace ParseMmapLog

open NumberTexts

variable {whole fraction : List Char}

theorem float_whole (h : '.' ∉ whole) : float whole = value 10 whole := by
  have hne : ∀ c ∈ whole, decide (c ≠ '.') = true := fun c hc =>
    decide_eq_true fun heq => h (heq ▸ hc)
  rw [float, List.filter_eq_self.mpr hne, List.dropWhile_eq_nil_iff.mpr hne]
  simp

theorem float_point (hwhole : '.' ∉ whole) (hfraction : '.' ∉ fraction) :
    float (whole ++ '.' :: fraction) = value 10 (whole ++ fraction) / (10 : ℕ) ^ fraction.length := by
  have hne : ∀ l : List Char, '.' ∉ l → ∀ c ∈ l, decide (c ≠ '.') = true := fun l hl c hc =>
    decide_eq_true fun heq => hl (heq ▸ hc)
  have hfilter : (whole ++ '.' :: fraction).filter (fun c => c ≠ '.') = whole ++ fraction := by
    rw [List.filter_append, List.filter_eq_self.mpr (hne whole hwhole),
      List.filter_cons_of_neg (by decide), List.filter_eq_self.mpr (hne fraction hfraction)]
  have hdrop : (whole ++ '.' :: fraction).dropWhile (fun c => c ≠ '.') = '.' :: fraction := by
    rw [List.dropWhile_append_of_pos (hne whole hwhole), List.dropWhile_cons_of_neg (by decide)]
  rw [float, hfilter, hdrop, List.length_cons, Nat.add_sub_cancel]

/-- The zeros that are dropped do not count. -/
theorem float_withFraction (hwhole : '.' ∉ whole) (hfraction : '.' ∉ fraction) :
    float (withFraction whole fraction) =
      value 10 (whole ++ fraction) / (10 : ℕ) ^ fraction.length := by
  have hten : ((10 : ℕ) : ℚ≥0) ≠ 0 := by norm_num
  have hsplit := List.rdropWhile_append_rtakeWhile (p := fun c => decide (c = '0')) (l := fraction)
  generalize hkept : fraction.rdropWhile (fun c => c = '0') = kept at hsplit
  generalize hzeros : fraction.rtakeWhile (fun c => c = '0') = zeros at hsplit
  have hzero : ∀ c ∈ zeros, c = '0' := by
    intro c hc
    rw [← hzeros] at hc
    exact of_decide_eq_true (List.mem_rtakeWhile_imp (p := fun c => decide (c = '0')) hc)
  have hkeptPoint : '.' ∉ kept := fun hmem => hfraction (hsplit ▸ List.mem_append_left _ hmem)
  have hvalue : (value 10 (whole ++ fraction) : ℚ≥0) / (10 : ℕ) ^ fraction.length =
      value 10 (whole ++ kept) / (10 : ℕ) ^ kept.length := by
    rw [← hsplit, ← List.append_assoc, value_append, value_zeros 10 hzero, List.length_append,
      pow_add, Nat.add_zero]
    push_cast
    rw [mul_div_mul_right _ _ (pow_ne_zero _ (by norm_num))]
  rw [hvalue, withFraction, hkept]
  split_ifs with hnil
  · rw [float_whole hwhole, hnil, List.append_nil, List.length_nil, pow_zero, div_one]
  · exact float_point hwhole hkeptPoint

theorem point_notMem {l : List Char} (h : ∀ c ∈ l, c.isDigit = true) : '.' ∉ l :=
  fun hmem => absurd (h '.' hmem) (by decide)

/-- A clock in fixed notation is read back as the number that its digits show. -/
theorem float_general {t : ℚ≥0} (h : Fixed t) : float (general t) = rounded t := by
  have hten : ((10 : ℕ) : ℚ≥0) ≠ 0 := by norm_num
  by_cases ht : t = 0
  · rw [general, if_pos ht, rounded, if_pos ht]
    exact (float_whole (by decide)).trans (by simp [value, digitValue])
  obtain ⟨-, hlt⟩ := h.resolve_left ht
  have hexp : (scientific t).2 - 5 = -((5 - (scientific t).2).toNat : ℤ) := by omega
  rw [general, if_neg ht, if_pos h, rounded, if_neg ht, hexp]
  dsimp only
  generalize (5 - (scientific t).2).toNat = places
  generalize (scientific t).1 = digits
  have hmod := Nat.mod_lt digits (Nat.pow_pos (n := places) (show 0 < 10 by omega))
  rw [float_withFraction (point_notMem isDigit_of_mem) (point_notMem isDigit_of_mem_padded),
    value_append, value_toDigits (by decide) (by decide), value_padded, zpow_neg, zpow_natCast,
    ← div_eq_mul_inv]
  rcases Nat.eq_zero_or_pos places with rfl | hpos
  · have hlength : (padded 0 (digits % 10 ^ 0)).length = 1 := by simp [padded, Nat.mod_one]
    rw [hlength, pow_zero, Nat.div_one, Nat.mod_one]
    simp
  · rw [length_padded hpos hmod, Nat.div_add_mod']

end ParseMmapLog

end AllocCounter
