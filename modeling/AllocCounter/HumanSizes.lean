import AllocCounter.NumberTexts
import Mathlib.Tactic.FieldSimp

/-!
# Sizes for the leak report

`humanSize` of `alloc-counter/patrol-thread.cpp`. A `double` is an exact
non-negative rational, and a stream prints it with six significant digits.

The loop advances the unit and divides the size. It leaves by its break below
1024, and otherwise after the last unit, when it has divided once more.
-/
namespace AllocCounter.PatrolThread

inductive SizeUnit where
  | bytes | kiB | MiB | GiB
deriving DecidableEq, Repr

namespace SizeUnit

def text : SizeUnit → List Char
  | bytes => "bytes".toList
  | kiB => "kiB".toList
  | MiB => "MiB".toList
  | GiB => "GiB".toList

def multiplier : SizeUnit → ℕ
  | bytes => 1
  | kiB => 1024
  | MiB => 1024 ^ 2
  | GiB => 1024 ^ 3

end SizeUnit

def units : List SizeUnit := [.bytes, .kiB, .MiB, .GiB]

/-- The loop over the units, with the variables `size` and `unit`. -/
def reduce : List SizeUnit → ℚ≥0 → SizeUnit → ℚ≥0 × SizeUnit
  | [], size, unit => (size, unit)
  | i :: rest, size, _ => if size < 1024 then (size, i) else reduce rest (size / 1024) i

/-- The number and the unit that are printed. The first round sets the unit. -/
def printed (size : ℚ≥0) : ℚ≥0 × SizeUnit := reduce units size .bytes

def humanSize (size : ℚ≥0) : List Char :=
  NumberTexts.general (printed size).1 ++ ' ' :: (printed size).2.text

example : humanSize 1536 = "1.5 kiB".toList ∧ humanSize (1023 * 1024 ^ 3) = "1023 GiB".toList ∧
    humanSize (1024 ^ 4) = "1 GiB".toList := by decide +kernel

/-- The break: the number times the unit is the size in the unit the loop started
from, and the number is at least one unless there was no division. -/
theorem reduce_of_lt {u : SizeUnit} {rest : List SizeUnit}
    (hchain : (u :: rest).IsChain fun u v => v.multiplier = 1024 * u.multiplier) {size : ℚ≥0}
    (hsize : size < 1024 ^ (rest.length + 1)) (unit : SizeUnit) :
    let r := reduce (u :: rest) size unit
    r.1 * r.2.multiplier = size * u.multiplier ∧ r.1 < 1024 ∧ (r = (size, u) ∨ 1 ≤ r.1) := by
  induction rest generalizing u size unit with
  | nil =>
      have hlt : size < 1024 := by simpa using hsize
      simp [reduce, hlt]
  | cons v rest ih =>
      have ⟨hnext, hrest⟩ := List.isChain_cons_cons.mp hchain
      rw [reduce]
      split_ifs with hlt
      · exact ⟨rfl, hlt, .inl rfl⟩
      · have hdivided : size / 1024 < 1024 ^ (rest.length + 1) := by
          rwa [div_lt_iff₀ (by norm_num), ← pow_succ]
        obtain ⟨hvalue, hbound, hcase⟩ := ih hrest hdivided u
        refine ⟨?_, hbound, .inr ?_⟩
        · rw [hvalue, hnext]
          push_cast
          field_simp
        · rcases hcase with heq | hone
          · rw [heq, one_le_div (by norm_num)]
            exact not_lt.mp hlt
          · exact hone

/-- Running out of units: the size was divided once for each of them. -/
theorem reduce_of_le (units : List SizeUnit) {size : ℚ≥0} (hsize : 1024 ^ units.length ≤ size)
    (unit : SizeUnit) :
    reduce units size unit = (size / 1024 ^ units.length, units.getLastD unit) := by
  induction units generalizing size unit with
  | nil => simp [reduce]
  | cons u rest ih =>
      rw [List.length_cons, pow_succ] at hsize
      have hdivided : 1024 ^ rest.length ≤ size / 1024 := by rwa [le_div_iff₀ (by norm_num)]
      have hge : 1024 ≤ size :=
        (le_mul_of_one_le_left (by norm_num) (one_le_pow₀ (by norm_num))).trans hsize
      rw [reduce, if_neg (not_lt.mpr hge), ih hdivided, div_div, ← pow_succ', List.getLastD_cons,
        List.length_cons]

/-- The printed number and unit denote the size, and the unit is the right one. -/
def InStep (size : ℚ≥0) : Prop :=
  (printed size).1 * (printed size).2.multiplier = size ∧
    ((printed size).2 ≠ .bytes → 1 ≤ (printed size).1) ∧
    ((printed size).2 ≠ .GiB → (printed size).1 < 1024)

/-- Value and unit are in step below 1024 GiB. From there on the size is divided
after the last unit too. -/
theorem inStep_iff (size : ℚ≥0) : InStep size ↔ size < 1024 ^ 4 := by
  constructor
  · intro ⟨hvalue, _⟩
    by_contra hlarge
    have hexit := reduce_of_le units (not_lt.mp hlarge) .bytes
    have hpos : 0 < size := lt_of_lt_of_le (by norm_num) (not_lt.mp hlarge)
    rw [printed, hexit] at hvalue
    have hless : size / 1024 ^ units.length * (SizeUnit.GiB.multiplier : ℚ≥0) < size := by
      rw [div_mul_eq_mul_div, div_lt_iff₀ (by positivity)]
      exact mul_lt_mul_of_pos_left (by norm_num [SizeUnit.multiplier, units]) hpos
    exact hless.ne hvalue
  · intro hsize
    have hchain : units.IsChain fun u v => v.multiplier = 1024 * u.multiplier := by decide
    obtain ⟨hvalue, hbound, hcase⟩ := reduce_of_lt hchain hsize .bytes
    refine ⟨?_, fun hunit => hcase.resolve_left fun heq => hunit ?_, fun _ => hbound⟩
    · exact hvalue.trans (by simp [SizeUnit.multiplier])
    · exact congrArg Prod.snd heq

/-- 1024 GiB are printed as one. -/
theorem not_all_inStep : ¬ ∀ size, InStep size := by
  intro h
  have hvalue := (h (1024 ^ 4)).1
  revert hvalue
  decide +kernel

end AllocCounter.PatrolThread
