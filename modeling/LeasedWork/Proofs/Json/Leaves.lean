import LeasedWork.Json.Writer
import LeasedWork.Proofs.Dispatch.StatedKind
import LeasedWork.Proofs.Text.Digits

/-!
# Strings and integers as they are written

What a writer puts down for a string or an integer is taken up whole by the reader of shapes and
means the same string or integer. Each character of a string is written in one of three ways, and
both steps of reading undo each of them; an integer is read up to the first character that could
not be part of a number.
-/
namespace LeasedWork.Json

open Number (twoTo)
open Text (isDigit digitsOf digitsOfInt digitsValue hexDigit hexValue?)

/-! ## Strings -/

/-- The characters of a string as they are written between its quotes. -/
def escape (cs : List Char) : List Char := cs.flatMap writeChar

variable {c : Char} {cs written rest : List Char}

/-- How a character is written: as it is, by a letter, or by its code. -/
inductive IsWritten (c : Char) : List Char → Prop
  | plain (quote : c ≠ '"') (backslash : c ≠ '\\') (control : ¬ c.toNat < 0x20) : IsWritten c [c]
  | letter {l : Char} (letter : isEscapeLetter l = true) (char : escapedChar l = c) :
    IsWritten c ['\\', l]
  | code (control : c.toNat < 0x20) :
    IsWritten c ['\\', 'u', '0', '0', hexDigit (c.toNat / 16), hexDigit (c.toNat % 16)]

/-- A letter of an escape names the character that it is written for. -/
theorem escapedChar_of_shortEscape? {l : Char} (h : shortEscape? c = some l) :
    isEscapeLetter l = true ∧ escapedChar l = c := by
  unfold shortEscape? at h
  split_ifs at h with h₁ h₂ h₃ h₄ h₅ h₆ h₇ <;> cases h <;> subst c <;> decide

theorem isWritten_writeChar (c : Char) : IsWritten c (writeChar c) := by
  rw [writeChar]
  cases hshort : shortEscape? c with
  | some l =>
    obtain ⟨hletter, hchar⟩ := escapedChar_of_shortEscape? hshort
    exact .letter hletter hchar
  | none =>
    by_cases hcontrol : c.toNat < 0x20
    · simp only [if_pos hcontrol]
      exact .code hcontrol
    · simp only [if_neg hcontrol]
      apply IsWritten.plain _ _ hcontrol
      · rintro rfl
        exact absurd hshort (by decide)
      · rintro rfl
        exact absurd hshort (by decide)

theorem writeChar_of_ne (quote : c ≠ '"') (backslash : c ≠ '\\') (control : ¬ c.toNat < 0x20) :
    writeChar c = [c] := by
  have hshort : shortEscape? c = none := by
    cases hletter : shortEscape? c with
    | none => rfl
    | some l =>
      unfold shortEscape? at hletter
      split_ifs at hletter <;> subst c <;> contradiction
  rw [writeChar, hshort]
  exact if_neg control

/-- The two digits of the code of a control character make that code. -/
theorem hexQuad_hexDigit (h : c.toNat < 0x20) :
    hexQuad '0' '0' (hexDigit (c.toNat / 16)) (hexDigit (c.toNat % 16)) = c.toNat := by
  have hhigh := Text.hexValue?_hexDigit (c.toNat / 16) (by omega)
  have hlow := Text.hexValue?_hexDigit (c.toNat % 16) (by omega)
  have hzero : hexValue? '0' = some 0 := by decide
  simp only [hexQuad, List.foldl_cons, List.foldl_nil, hhigh, hlow, hzero, Option.getD_some]
  omega

theorem ne_u_of_isEscapeLetter {l : Char} (h : isEscapeLetter l = true) : l ≠ 'u' := by
  rintro rfl
  exact absurd h (by decide)

theorem readBody_of_isWritten (h : IsWritten c written) (rest : List Char) :
    readBody (written ++ rest) = (readBody rest).map fun r => (written ++ r.1, r.2) := by
  cases h with
  | plain quote backslash control =>
    have hplain : ¬ (c = '\\' ∨ c.toNat < 0x20) := not_or.mpr ⟨backslash, control⟩
    apply (readBody.eq_5 c rest quote _ _).trans (if_neg hplain)
    · exact fun _ _ _ _ _ h _ => backslash h
    · exact fun _ _ h _ => backslash h
  | @letter l hletter hchar =>
    apply (readBody.eq_4 l rest _).trans (if_pos hletter)
    exact fun _ _ _ _ _ hu _ => ne_u_of_isEscapeLetter hletter hu
  | code control =>
    have hhigh := Text.hexValue?_hexDigit (c.toNat / 16) (by omega)
    have hlow := Text.hexValue?_hexDigit (c.toNat % 16) (by omega)
    have hzero : hexValue? '0' = some 0 := by decide
    simp [readBody, hhigh, hlow, hzero]

theorem decodeBody_of_isWritten (h : IsWritten c written) (rest : List Char) :
    decodeBody (written ++ rest) = (decodeBody rest).map (c :: ·) := by
  cases h with
  | plain quote backslash control =>
    apply decodeBody.eq_5 c rest
    · exact fun _ _ _ _ _ h _ => backslash h
    · exact fun _ _ h _ => backslash h
  | @letter l hletter hchar =>
    rw [← hchar]
    apply decodeBody.eq_4 l rest
    exact fun _ _ _ _ _ hu _ => ne_u_of_isEscapeLetter hletter hu
  | code control =>
    have hlow : isLowHalf c.toNat = false := by simp [isLowHalf]; omega
    have hhigh : isHighHalf c.toNat = false := by simp [isHighHalf]; omega
    have hquad := hexQuad_hexDigit control
    simp only [List.cons_append, List.nil_append]
    rw [decodeBody.eq_def]
    simp [hquad, hlow, hhigh]

/-- The body of a written string ends at its closing quote. -/
theorem readBody_escape (cs rest : List Char) :
    readBody (escape cs ++ '"' :: rest) = some (escape cs, rest) := by
  induction cs with
  | nil => rfl
  | cons c cs ih =>
    rw [escape, List.flatMap_cons, List.append_assoc]
    rw [readBody_of_isWritten (isWritten_writeChar c), ← escape, ih]
    rfl

theorem decodeBody_escape (cs : List Char) : decodeBody (escape cs) = some cs := by
  induction cs with
  | nil => rfl
  | cons c cs ih =>
    rw [escape, List.flatMap_cons, decodeBody_of_isWritten (isWritten_writeChar c), ← escape, ih]
    rfl

/-! ## Integers -/

/-- Whether a value ends before a text: nothing follows, or a comma or a closing bracket does. -/
inductive Stops : List Char → Prop
  | done : Stops []
  | comma (rest : List Char) : Stops (',' :: rest)
  | bracket (rest : List Char) : Stops (']' :: rest)
  | brace (rest : List Char) : Stops ('\x7d' :: rest)

/-- What the digits of an integer look like to a reader. -/
def Lexeme.ofInt (n : Int) : Lexeme := ⟨decide (n < 0), digitsOf n.natAbs, none, none⟩

theorem isDigit_of_stops (h : Stops rest) : ∀ c, rest.head? = some c → isDigit c = false := by
  cases h <;> simp <;> decide

theorem readWhole_digitsOf (n : Nat) (h : Stops rest) :
    readWhole (digitsOf n ++ rest) = some (digitsOf n, rest) := by
  by_cases hzero : n = 0
  · subst hzero
    rfl
  · obtain ⟨c, digits, hcons⟩ := List.exists_cons_of_ne_nil (Text.digitsOf_ne_nil n)
    have hfirst := Text.head?_digitsOf_ne_zero hzero
    have hdigits : ∀ c ∈ digitsOf n, isDigit c = true := fun _ => Text.isDigit_of_mem_digitsOf
    have hstops := isDigit_of_stops h
    rw [hcons] at hfirst hdigits ⊢
    rw [readWhole.eq_2 _ fun rest hrest => hfirst (by cases hrest; rfl), readDigits,
      Text.takeWhile_isDigit hdigits hstops, Text.dropWhile_isDigit hdigits hstops]
    rfl

theorem readUnsigned_digitsOf (negative : Bool) (n : Nat) (h : Stops rest) :
    readUnsigned negative (digitsOf n ++ rest) = some (⟨negative, digitsOf n, none, none⟩, rest) := by
  rw [readUnsigned, readWhole_digitsOf n h]
  cases h <;> rfl

theorem readLexeme_digitsOfInt (n : Int) (h : Stops rest) :
    readLexeme (digitsOfInt n ++ rest) = some (.ofInt n, rest) := by
  rw [digitsOfInt, Lexeme.ofInt]
  by_cases hsign : n < 0
  · rw [if_pos hsign, decide_eq_true hsign]
    exact readUnsigned_digitsOf true n.natAbs h
  · obtain ⟨c, digits, hcons⟩ := List.exists_cons_of_ne_nil (Text.digitsOf_ne_nil n.natAbs)
    have hdigit : isDigit c = true := Text.isDigit_of_mem_digitsOf (hcons ▸ List.mem_cons_self)
    have hunsigned := readUnsigned_digitsOf false n.natAbs h
    rw [if_neg hsign, decide_eq_false hsign]
    rw [hcons] at hunsigned ⊢
    rw [← hunsigned]
    apply readLexeme.eq_2
    rintro rest hrest
    cases hrest
    exact absurd hdigit (by decide)

/-- An integer that a signed or an unsigned word of 64 bits holds is read back as it is. -/
theorem numeral?_ofInt {n : Int} (hlow : -(twoTo 63 : Int) ≤ n) (hhigh : n < twoTo 64) :
    (Lexeme.ofInt n).numeral? = some (.integer n) := by
  have hvalue : digitsValue (Lexeme.ofInt n).whole = n.natAbs := Text.digitsValue_digitsOf _
  have hlimits : twoTo 63 = 9223372036854775808 ∧ twoTo 64 = 18446744073709551616 := by decide
  rw [numeral?_of_plain rfl rfl (by omega), hvalue]
  by_cases hsign : n < 0
  · have hinteger : ¬ (n.natAbs = 0 ∨ twoTo 63 < n.natAbs) := by omega
    have hnatAbs : -(n.natAbs : Int) = n := by omega
    simp only [Lexeme.ofInt, hsign, decide_true, if_true, if_neg hinteger, hnatAbs]
  · have hnatAbs : (n.natAbs : Int) = n := by omega
    simp [Lexeme.ofInt, hsign, hnatAbs]

end LeasedWork.Json
