import Mathlib.Algebra.Group.Nat.Defs
import Mathlib.Data.List.TakeWhile

/-!
# Decimal text

`pad w n` writes the last `w` decimal digits of a number, and `leadingValue` reads the digits at
the front of a text.
-/

namespace TinyGameServer.DecimalText

def pad : ℕ → ℕ → List Char
  | 0, _ => []
  | w + 1, n => pad w (n / 10) ++ [(n % 10).digitChar]

def leadingValue (text : List Char) : ℕ := Nat.ofDigitChars 10 (text.takeWhile Char.isDigit) 0

theorem isDigit_of_mem_pad {w n : ℕ} {c : Char} (h : c ∈ pad w n) : c.isDigit = true := by
  induction w generalizing n with
  | zero => cases h
  | succ w ih =>
      rcases List.mem_append.mp h with h | h
      · exact ih h
      · rw [List.mem_singleton.mp h, Nat.isDigit_digitChar]
        exact decide_eq_true (Nat.mod_lt n (by decide))

theorem ofDigitChars_pad (w n acc : ℕ) :
    Nat.ofDigitChars 10 (pad w n) acc = acc * 10 ^ w + n % 10 ^ w := by
  induction w generalizing n with
  | zero => simp [pad, Nat.mod_one]
  | succ w ih =>
      have hdigit : n % 10 < 10 := Nat.mod_lt n (by decide)
      rw [pad, Nat.ofDigitChars_append, ih, Nat.ofDigitChars_cons_digitChar_of_lt_ten hdigit,
        Nat.ofDigitChars_nil, Nat.pow_succ', Nat.mod_mul]
      have hmul : acc * (10 * 10 ^ w) = 10 * (acc * 10 ^ w) := Nat.mul_left_comm ..
      omega

/-- A field of digits in front of the rest moves its value to the accumulator. -/
theorem ofDigitChars_pad_append {w n : ℕ} (h : n < 10 ^ w) (rest : List Char) (acc : ℕ) :
    Nat.ofDigitChars 10 (pad w n ++ rest) acc =
      Nat.ofDigitChars 10 rest (acc * 10 ^ w + n) := by
  rw [Nat.ofDigitChars_append, ofDigitChars_pad, Nat.mod_eq_of_lt h]

theorem leadingValue_of_digits {text : List Char} (h : ∀ c ∈ text, c.isDigit = true) :
    leadingValue text = Nat.ofDigitChars 10 text 0 := by
  rw [leadingValue, List.takeWhile_eq_self_iff.mpr h]

end TinyGameServer.DecimalText
