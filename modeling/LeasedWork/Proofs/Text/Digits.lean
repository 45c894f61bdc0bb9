import LeasedWork.Text.Digits
import Mathlib.Algebra.GroupWithZero.Nat

/-!
# Digits written and read

A number in decimal digits is read back from any text in which no further digit follows it. Its
first digit is a zero only if the number is, and zeros that are put before it change nothing.
-/
namespace LeasedWork.Text

variable {n width : Nat} {c : Char} {digits rest : List Char}

theorem isDigit_of_mem_digitsOf (h : c ∈ digitsOf n) : isDigit c = true :=
  Nat.isDigit_of_mem_toDigits (by decide) (by decide) h

theorem digitsOf_ne_nil (n : Nat) : digitsOf n ≠ [] :=
  List.ne_nil_of_length_pos Nat.length_toDigits_pos

theorem digitsValue_digitsOf (n : Nat) : digitsValue (digitsOf n) = n :=
  Nat.ofDigitChars_toDigits (by decide) (by decide)

theorem length_digitsOf_le (hwidth : 0 < width) (h : n < 10 ^ width) :
    (digitsOf n).length ≤ width :=
  (Nat.length_toDigits_le_iff (by decide) hwidth).mpr h

theorem digitsValue_replicate_append (count : Nat) (digits : List Char) :
    digitsValue (List.replicate count '0' ++ digits) = digitsValue digits := by
  have hzeros : Nat.ofDigitChars 10 (List.replicate count '0') 0 = 0 := by
    rw [Nat.ofDigitChars_replicate_zero, Nat.mul_zero]
  change Nat.ofDigitChars 10 (List.replicate count '0' ++ digits) 0 = _
  rw [Nat.ofDigitChars_append, hzeros]
  rfl

theorem digitsOf_of_lt (h : n < 10) : digitsOf n = [n.digitChar] := Nat.toDigits_of_lt_base h

theorem digitsOf_of_le (h : 10 ≤ n) :
    digitsOf n = digitsOf (n / 10) ++ [(n % 10).digitChar] :=
  Nat.toDigits_of_base_le (by decide) h

/-- The digits of a number other than zero start with another digit. -/
theorem head?_digitsOf_ne_zero (h : n ≠ 0) : (digitsOf n).head? ≠ some '0' := by
  induction n using Nat.strongRecOn with
  | _ n ih =>
    by_cases hsmall : n < 10
    · have hdigit : ∀ k < 10, k ≠ 0 → Nat.digitChar k ≠ '0' := by decide
      rw [digitsOf_of_lt hsmall]
      simpa using hdigit n hsmall h
    · obtain ⟨c, rest, hcons⟩ := List.exists_cons_of_ne_nil (digitsOf_ne_nil (n / 10))
      have hfirst := ih (n / 10) (by omega) (by omega)
      rw [digitsOf_of_le (Nat.not_lt.mp hsmall), hcons]
      rwa [hcons] at hfirst

/-! ## Runs of digits -/

theorem takeWhile_isDigit (h : ∀ c ∈ digits, isDigit c = true)
    (hrest : ∀ c, rest.head? = some c → isDigit c = false) :
    (digits ++ rest).takeWhile isDigit = digits := by
  rw [List.takeWhile_append_of_pos h]
  cases rest with
  | nil => simp
  | cons c rest => simp [hrest c rfl]

theorem dropWhile_isDigit (h : ∀ c ∈ digits, isDigit c = true)
    (hrest : ∀ c, rest.head? = some c → isDigit c = false) :
    (digits ++ rest).dropWhile isDigit = rest := by
  rw [List.dropWhile_append_of_pos h]
  cases rest with
  | nil => simp
  | cons c rest => simp [hrest c rfl]

end LeasedWork.Text
