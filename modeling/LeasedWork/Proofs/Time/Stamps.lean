import LeasedWork.Proofs.Text.Digits
import LeasedWork.Proofs.Time.Calendar
import LeasedWork.Time.Stamp
import Mathlib.Tactic.SplitIfs

/-!
# Stamps read back

An instant of the years 0 to 9999 that lies in no leap second is read back from its stamp, to the
nanosecond: each field has a fixed width and is read whole, the fraction has as many digits as it
needs, and day and second of the day put the instant together again.
-/
namespace LeasedWork.Time

open Text (isBlank isDigit digitsOf digitsValue)

variable {n width : Nat} {c : Char} {cs rest : List Char}

/-! ## Fields of a fixed width -/

theorem isDigit_of_mem_padded (h : c ∈ padded width n) : isDigit c = true := by
  rw [padded] at h
  rcases List.mem_append.mp h with hzero | hdigit
  · obtain rfl := List.eq_of_mem_replicate hzero
    rfl
  · exact Text.isDigit_of_mem_digitsOf hdigit

theorem length_padded (hwidth : 0 < width) (h : n < 10 ^ width) :
    (padded width n).length = width := by
  have hlength := Text.length_digitsOf_le hwidth h
  simp only [padded, List.length_append, List.length_replicate]
  omega

theorem digitsValue_padded (width n : Nat) : digitsValue (padded width n) = n := by
  rw [padded, Text.digitsValue_replicate_append, Text.digitsValue_digitsOf]

theorem toNat_of_isDigit (h : isDigit c = true) : 48 ≤ c.toNat ∧ c.toNat ≤ 57 := by
  simpa [isDigit, Char.le_def, UInt32.le_iff_toNat_le] using h

theorem isBlank_of_isDigit (h : isDigit c = true) : isBlank c = false := by
  have hrange := toNat_of_isDigit h
  simp [isBlank, Text.blankRanges]
  omega

theorem exists_padded_eq_cons (hwidth : 0 < width) (h : n < 10 ^ width) :
    ∃ c others, padded width n = c :: others ∧ isDigit c = true := by
  have hlength := length_padded hwidth h
  obtain ⟨c, others, hcons⟩ := List.exists_cons_of_length_pos (l := padded width n) (by omega)
  exact ⟨c, others, hcons, isDigit_of_mem_padded (hcons ▸ List.mem_cons_self)⟩

theorem padded_ne_nil (hwidth : 0 < width) (h : n < 10 ^ width) : padded width n ≠ [] := by
  obtain ⟨c, others, hcons, -⟩ := exists_padded_eq_cons hwidth h
  simp [hcons]

theorem skipBlanks_padded (hwidth : 0 < width) (h : n < 10 ^ width) (rest : List Char) :
    skipBlanks (padded width n ++ rest) = padded width n ++ rest := by
  obtain ⟨c, others, hcons, hdigit⟩ := exists_padded_eq_cons hwidth h
  rw [hcons]
  exact List.dropWhile_cons_of_neg (by simp [isBlank_of_isDigit hdigit])

/-- The digits at the start of a text are a field that it starts with, if no digit follows. -/
theorem takeWhile_padded (hrest : ∀ c, rest.head? = some c → isDigit c = false) :
    (padded width n ++ rest).takeWhile isDigit = padded width n :=
  Text.takeWhile_isDigit (fun _ => isDigit_of_mem_padded) hrest

theorem readNumber_padded (hwidth : 0 < width) (h : n < 10 ^ width) (rest : List Char) :
    readNumber width (padded width n ++ rest) = some (n, rest) := by
  have hlength := length_padded hwidth h
  have hdigits : ((padded width n ++ rest).take width).takeWhile isDigit = padded width n := by
    rw [List.take_left' hlength]
    have hwhole : (padded width n ++ []).takeWhile isDigit = padded width n :=
      takeWhile_padded (by simp)
    rwa [List.append_nil] at hwhole
  simp only [readNumber, hdigits, if_neg (padded_ne_nil hwidth h), digitsValue_padded,
    List.drop_left]

theorem readField_padded (hwidth : 0 < width) (h : n < 10 ^ width) (rest : List Char) :
    readField width (padded width n ++ rest) = some (n, rest) := by
  rw [readField, skipBlanks_padded hwidth h, readNumber_padded hwidth h]

theorem readYear_padded (h : n < 10 ^ 4) (rest : List Char) :
    readYear (padded 4 n ++ rest) = some ((n : Int), rest) := by
  have hnumber := readNumber_padded (by decide) h rest
  obtain ⟨c, others, hcons, hdigit⟩ := exists_padded_eq_cons (by decide) h
  rw [readYear, skipBlanks_padded (by decide) h]
  rw [hcons, List.cons_append] at hnumber ⊢
  split
  · rename_i hminus
    cases hminus
    exact absurd hdigit (by decide)
  · rename_i hplus
    cases hplus
    exact absurd hdigit (by decide)
  · rw [hnumber]
    rfl

theorem head?_take {k : Nat} (h : (rest.take k).head? = some c) : rest.head? = some c := by
  rw [List.head?_take] at h
  split at h
  · cases h
  · exact h

/-- The digits of a fraction are read up to the first other character. -/
theorem readNanos_padded (hwidth : 0 < width) (hnine : width ≤ 9) (h : n < 10 ^ width)
    (hrest : ∀ c, rest.head? = some c → isDigit c = false) :
    readNanos ('.' :: (padded width n ++ rest)) = some (n * Number.tenTo (9 - width), rest) := by
  have hlength := length_padded hwidth h
  have hdigits : ((padded width n ++ rest).take 9).takeWhile isDigit = padded width n := by
    rw [List.take_append, List.take_of_length_le (by omega)]
    exact takeWhile_padded fun c hc => hrest c (head?_take hc)
  have hdrop : (padded width n ++ rest).drop width = rest := List.drop_left' hlength
  have hover : ([] ++ rest).dropWhile isDigit = rest := Text.dropWhile_isDigit (by simp) hrest
  rw [List.nil_append] at hover
  simp only [readNanos, hdigits, if_neg (padded_ne_nil hwidth h), digitsValue_padded, hlength,
    hdrop, hover]

/-- The fraction of a second has as many digits as it needs. -/
theorem readNanos_writeFraction (h : n < nanosPerSecond)
    (hrest : ∀ c, rest.head? = some c → isDigit c = false ∧ c ≠ '.') :
    readNanos (writeFraction n ++ rest) = some (n, rest) := by
  have hdigits : ∀ c, rest.head? = some c → isDigit c = false := fun c hc => (hrest c hc).1
  have hpowers : 10 ^ 3 = 1000 ∧ 10 ^ 6 = 1000000 ∧ 10 ^ 9 = nanosPerSecond := by decide
  have hscales : Number.tenTo 6 = 1000000 ∧ Number.tenTo 3 = 1000 ∧ Number.tenTo 0 = 1 := by decide
  have hsecond : nanosPerSecond = 1000000000 := rfl
  unfold writeFraction
  split_ifs with hzero hmillis hmicros
  · rw [hzero, List.nil_append]
    apply readNanos.eq_2
    rintro others rfl
    exact (hrest '.' rfl).2 rfl
  · rw [List.cons_append, readNanos_padded (by decide) (by decide) (by omega) hdigits]
    rw [show 9 - 3 = 6 from rfl, hscales.1, Nat.div_mul_cancel (Nat.dvd_of_mod_eq_zero hmillis)]
  · rw [List.cons_append, readNanos_padded (by decide) (by decide) (by omega) hdigits]
    rw [show 9 - 6 = 3 from rfl, hscales.2.1, Nat.div_mul_cancel (Nat.dvd_of_mod_eq_zero hmicros)]
  · rw [List.cons_append, readNanos_padded (by decide) (by decide) (by omega) hdigits]
    rw [show 9 - 9 = 0 from rfl, hscales.2.2, Nat.mul_one]

/-! ## Whole stamps -/

theorem skipBlanks_cons (h : isBlank c = false) (rest : List Char) :
    skipBlanks (c :: rest) = c :: rest := List.dropWhile_cons_of_neg (by simp [h])

theorem readMark_cons (h : isBlank c = false) (rest : List Char) :
    readMark c (c :: rest) = some rest := by
  rw [readMark, skipBlanks_cons h]
  exact if_pos rfl

namespace Instant

/-- The date that an instant falls on. -/
def date (t : Instant) : Date := Date.ofDayNumber (t.second / secondsPerDay + epochDay)

/-- The second of its day that an instant falls in. -/
def ofDay (t : Instant) : Nat := (t.second % secondsPerDay).toNat

/-- Whether an instant lies in the years 0 to 9999 and in no leap second. -/
structure IsPlain (t : Instant) : Prop where
  year : 0 ≤ t.date.year ∧ t.date.year ≤ 9999
  nano : t.nano < nanosPerSecond

variable {t : Instant} {year month day hour minute second nano : Nat}

/-- A stamp field by field. -/
def fields (year month day hour minute second nano : Nat) : List Char :=
  padded 4 year ++ '-' :: (padded 2 month ++ '-' :: (padded 2 day ++ 'T' :: (padded 2 hour ++
    ':' :: (padded 2 minute ++ ':' :: (padded 2 second ++ (writeFraction nano ++ ['Z']))))))

theorem stamp_eq_fields (h : t.IsPlain) : t.stamp = fields t.date.year.toNat t.date.month t.date.day
    (t.ofDay / 3600) (t.ofDay / 60 % 60) (t.ofDay % 60) t.nano := by
  have hyear : writeYear t.date.year = padded 4 t.date.year.toNat := if_pos h.year
  have hnano : t.nano / nanosPerSecond = 0 ∧ t.nano % nanosPerSecond = t.nano :=
    ⟨Nat.div_eq_of_lt h.nano, Nat.mod_eq_of_lt h.nano⟩
  have hdate : t.dateText =
      writeYear t.date.year ++ '-' :: padded 2 t.date.month ++ '-' :: padded 2 t.date.day := rfl
  rw [stamp, hdate, hyear, timeText, hnano.1, hnano.2]
  simp [fields, ofDay]

/-- The fields of a stamp are read one after another; what they name is judged at the end. -/
theorem ofStamp?_fields (hyear : year < 10 ^ 4) (hmonth : month < 10 ^ 2) (hday : day < 10 ^ 2)
    (hhour : hour < 24) (hminute : minute < 60) (hsecond : second < 60) (hnano : nano < nanosPerSecond)
    (hvalid : (Date.mk year month day).isValid = true)
    (hname : isNameable ((ofDate ⟨year, month, day⟩).second +
      (hour * 3600 + minute * 60 + second : Nat)) = true) :
    ofStamp? (fields year month day hour minute second nano) =
      some ⟨(ofDate ⟨year, month, day⟩).second + (hour * 3600 + minute * 60 + second : Nat), nano⟩ := by
  have hfraction : readNanos (writeFraction nano ++ ['Z']) = some (nano, ['Z']) :=
    readNanos_writeFraction hnano (by simp; decide)
  have htwo : 0 < 2 := by decide
  have hdash : isBlank '-' = false := by decide
  have hcolon : isBlank ':' = false := by decide
  have hzone : readOffset (skipBlanks ['Z']) = some (0, []) := by decide
  have hleap : second ≠ 60 := by omega
  refine Option.bind_eq_some_iff.mpr ⟨_, readYear_padded hyear _, ?_⟩
  refine Option.bind_eq_some_iff.mpr ⟨_, readMark_cons hdash _, ?_⟩
  refine Option.bind_eq_some_iff.mpr ⟨_, readField_padded htwo hmonth _, ?_⟩
  refine Option.bind_eq_some_iff.mpr ⟨_, readMark_cons hdash _, ?_⟩
  refine Option.bind_eq_some_iff.mpr ⟨_, readField_padded htwo hday _, ?_⟩
  refine Option.bind_eq_some_iff.mpr ⟨_, readField_padded htwo (by omega) _, ?_⟩
  refine Option.bind_eq_some_iff.mpr ⟨_, readMark_cons hcolon _, ?_⟩
  refine Option.bind_eq_some_iff.mpr ⟨_, readField_padded htwo (by omega) _, ?_⟩
  refine Option.bind_eq_some_iff.mpr ⟨_, readMark_cons hcolon _, ?_⟩
  refine Option.bind_eq_some_iff.mpr ⟨_, readField_padded htwo (by omega) _, ?_⟩
  refine Option.bind_eq_some_iff.mpr ⟨_, hfraction, ?_⟩
  refine Option.bind_eq_some_iff.mpr ⟨_, hzone, ?_⟩
  simp only [hleap, if_false, Int.sub_zero, Nat.add_zero]
  have hofDay : ((hour * 3600 + minute * 60 + second : Nat) : Int) =
      hour * 3600 + minute * 60 + second := by omega
  rw [hofDay] at hname ⊢
  exact if_pos ⟨rfl, hvalid, hhour, hminute, by omega, by decide, hname, hname⟩

/-- Days of the first ten thousand years have numbers that are not negative and are few enough
for their seconds to have names. -/
theorem isNameable_of_isPlain (h : t.IsPlain) : isNameable t.second = true := by
  obtain ⟨hlow, hhigh⟩ := h.year
  obtain ⟨hfirst, hlast⟩ := daysBeforeYear_yearOfDay (t.second / secondsPerDay + epochDay)
  have hbounds : leastSecond = -8334601228800 ∧ endSecond = 8210266876800 := by decide
  have hdate : t.date.year = yearOfDay (t.second / secondsPerDay + epochDay) := rfl
  rw [← hdate] at hfirst hlast
  simp only [isNameable, hbounds, Bool.and_eq_true, decide_eq_true_eq]
  simp only [daysBeforeYear, secondsPerDay, epochDay] at hfirst hlast
  omega

/-- A date and the second of its day make the instant again. -/
theorem second_ofDate_date (t : Instant) :
    (ofDate t.date).second + (t.ofDay / 3600 * 3600 + t.ofDay / 60 % 60 * 60 + t.ofDay % 60 : Nat) =
      t.second := by
  have hday := (Date.ofDayNumber_spec (t.second / secondsPerDay + epochDay)).2
  have hofDay : t.ofDay / 3600 * 3600 + t.ofDay / 60 % 60 * 60 + t.ofDay % 60 = t.ofDay := by omega
  rw [hofDay, ofDate, date, hday, ofDay]
  simp only [secondsPerDay]
  omega

/-- A stamp is read back as the instant that it was written for. -/
theorem ofStamp?_stamp (h : t.IsPlain) : ofStamp? t.stamp = some t := by
  have hvalid : t.date.isValid = true := (Date.ofDayNumber_spec _).1
  obtain ⟨hmonth, hday⟩ := Date.lt_of_isValid hvalid
  obtain ⟨hlow, hhigh⟩ := h.year
  have hdate : Date.mk (t.date.year.toNat : Int) t.date.month t.date.day = t.date := by
    rw [Int.toNat_of_nonneg hlow]
  have hsecond := second_ofDate_date t
  have hofDay : t.ofDay < 86400 := by
    simp only [ofDay, secondsPerDay]
    omega
  rw [stamp_eq_fields h, ofStamp?_fields (by omega) hmonth hday (by omega) (by omega) (by omega)
    h.nano (hdate ▸ hvalid), hdate, hsecond]
  · rw [hdate, hsecond]
    exact isNameable_of_isPlain h

/-- Whether a character lies between the dash and the last capital, as all of a stamp do. -/
def isStampChar (c : Char) : Bool := '-' ≤ c && c ≤ 'Z'

theorem all_padded (width n : Nat) : (padded width n).all isStampChar = true := by
  rw [List.all_eq_true]
  intro c hc
  have hrange := toNat_of_isDigit (isDigit_of_mem_padded hc)
  simp [isStampChar, Char.le_def, UInt32.le_iff_toNat_le]
  omega

theorem all_writeFraction (n : Nat) : (writeFraction n).all isStampChar = true := by
  have hpoint : isStampChar '.' = true := by decide
  unfold writeFraction
  split_ifs
  · rfl
  all_goals rw [List.all_cons, hpoint, all_padded]; rfl

theorem all_stamp (h : t.IsPlain) : t.stamp.all isStampChar = true := by
  have hmarks : isStampChar '-' = true ∧ isStampChar 'T' = true ∧ isStampChar ':' = true ∧
      isStampChar 'Z' = true := by decide
  simp [stamp_eq_fields h, fields, all_padded, all_writeFraction, hmarks]

end Instant

end LeasedWork.Time
