import LeasedWork.Proofs.Number.Rounding
import LeasedWork.Proofs.Settings.BeatPeriod
import LeasedWork.Time.Jitter

/-!
# How long random delays are

A delay is some hundredths of a period, by way of doubles: the period in seconds is rounded twice,
the hundredths once, and so is their product, before the result is rounded to nanoseconds. Four
roundings do not reach what one hundredth of the period leaves out, so a delay is shorter than its
period unless that hundredth is a matter of half a nanosecond.
-/
namespace LeasedWork.Time

open Number

variable {period : Duration} {draw less : Nat}

namespace Duration

/-- The longest durations there are do not have `2 ^ 64` seconds. -/
def IsInReach (d : Duration) : Prop := d.nanos < twoTo 64 * nanosPerSecond

instance : DecidablePred IsInReach := fun d => by
  unfold IsInReach
  infer_instance

theorem seconds_add_subsecond (d : Duration) :
    d.seconds * nanosPerSecond + d.subsecond = d.nanos := Nat.div_add_mod' _ _

end Duration

/-! ## Four roundings -/

theorem unitsPerOne_pos : 0 < Double.unitsPerOne := twoTo_pos 1074

theorem twoTo_values : twoTo 64 = 18446744073709551616 ∧ twoTo 70 = 1180591620717411303424 ∧
    twoTo 100 = 1267650600228229401496703205376 := by decide

/-- The seconds of a duration stay well below the largest ratio of a common size. -/
theorem Duration.IsInReach.nanos_le (h : period.IsInReach) :
    64 * period.nanos ≤ nanosPerSecond * twoTo 70 := by
  have hreach : period.nanos < twoTo 64 * nanosPerSecond := h
  obtain ⟨h64, h70, -⟩ := twoTo_values
  rw [h64] at hreach
  rw [h70]
  omega

theorem isOrdinary_of_lt {num den : Nat} (hden : 0 < den) (hsmall : num ≤ twoTo 70)
    (hlarge : den ≤ twoTo 100) : IsOrdinary num den := by
  constructor
  · exact Nat.le_trans hsmall (Nat.le_mul_of_pos_left _ hden)
  · intro hnum
    exact Nat.le_trans hlarge (Nat.le_mul_of_pos_left _ (Nat.pos_of_ne_zero hnum))

/-- Whole seconds and the rest, each of them rounded. -/
def roundedParts (d : Duration) : Nat :=
  (Double.ofNat d.seconds).units + (Double.ofRatio d.subsecond nanosPerSecond).units

theorem near_roundedParts (hperiod : period.IsInReach) :
    Near 1 (roundedParts period * nanosPerSecond) (period.nanos * Double.unitsPerOne) := by
  obtain ⟨h64, h70, -⟩ := twoTo_values
  have hsubsecond : period.subsecond < nanosPerSecond := Nat.mod_lt _ (by decide)
  have hseconds : period.seconds < twoTo 64 :=
    (Nat.div_lt_iff_lt_mul (by decide)).mpr hperiod
  have hwhole : Near 1 ((Double.ofNat period.seconds).units * 1)
      (period.seconds * Double.unitsPerOne) :=
    near_ofRatio (by decide) (isOrdinary_of_lt (by decide) (by omega) (by decide))
  have hrest : Near 1 ((Double.ofRatio period.subsecond nanosPerSecond).units * nanosPerSecond)
      (period.subsecond * Double.unitsPerOne) := by
    have hsmall : nanosPerSecond ≤ twoTo 70 := by decide
    exact near_ofRatio (by decide) (isOrdinary_of_lt (by decide) (by omega) (by decide))
  have hsum := (hwhole.mul_right nanosPerSecond).add hrest
  have htotal : period.seconds * Double.unitsPerOne * nanosPerSecond +
      period.subsecond * Double.unitsPerOne = period.nanos * Double.unitsPerOne := by
    rw [← period.seconds_add_subsecond]
    ring
  rw [Nat.mul_one, ← Nat.add_mul, htotal] at hsum
  exact hsum

/-- A number of seconds as a double is two roundings away. -/
theorem near_toDouble (hperiod : period.IsInReach) :
    Near 2 (period.toDouble.units * nanosPerSecond) (period.nanos * Double.unitsPerOne) := by
  have hparts := near_roundedParts hperiod
  have hordinary : IsOrdinary (roundedParts period) Double.unitsPerOne := by
    apply hparts.isOrdinary (by decide)
    · have hreach := hperiod.nanos_le
      omega
    · decide
  have hsum : Near 1 (period.toDouble.units * Double.unitsPerOne)
      (roundedParts period * Double.unitsPerOne) := near_ofRatio unitsPerOne_pos hordinary
  exact ((hsum.cancel unitsPerOne_pos).mul_right nanosPerSecond).trans hparts

/-- So many hundredths of a duration, in seconds. -/
def hundredthsOf (period : Duration) (draw : Nat) : Double :=
  (Double.ofRatio draw 100).mul period.toDouble

theorem isOrdinary_hundredths (hdraw : draw < 100) : IsOrdinary draw 100 := by
  have hsmall : 100 ≤ twoTo 70 := by decide
  exact isOrdinary_of_lt (by decide) (by omega) (by decide)

/-- The hundredths and the seconds before they are multiplied are three roundings away. -/
theorem near_factors (hperiod : period.IsInReach) (hdraw : draw < 100) :
    Near 3 ((Double.ofRatio draw 100).units * period.toDouble.units * (nanosPerSecond * 100))
      (draw * period.nanos * (Double.unitsPerOne * Double.unitsPerOne)) := by
  have hpercent := near_ofRatio (by decide) (isOrdinary_hundredths hdraw)
  have hproduct := hpercent.mul (near_toDouble hperiod)
  convert hproduct using 1 <;> ring

theorem isOrdinary_factors (hperiod : period.IsInReach) (hdraw : draw < 100) :
    IsOrdinary ((Double.ofRatio draw 100).units * period.toDouble.units)
      (Double.unitsPerOne * Double.unitsPerOne) := by
  apply (near_factors hperiod hdraw).isOrdinary (by decide)
  · have hreach := hperiod.nanos_le
    have hless : draw * period.nanos ≤ 100 * period.nanos :=
      Nat.mul_le_mul_right _ (Nat.le_of_lt hdraw)
    rw [Nat.mul_right_comm]
    omega
  · decide

theorem square_pos : 0 < Double.unitsPerOne * Double.unitsPerOne :=
  Nat.mul_pos unitsPerOne_pos unitsPerOne_pos

/-- A delay in seconds is four roundings away. -/
theorem near_hundredthsOf (hperiod : period.IsInReach) (hdraw : draw < 100) :
    Near 4 ((hundredthsOf period draw).units * nanosPerSecond * 100)
      (draw * period.nanos * Double.unitsPerOne) := by
  have hrounded : Near 1
      ((hundredthsOf period draw).units * (Double.unitsPerOne * Double.unitsPerOne))
      ((Double.ofRatio draw 100).units * period.toDouble.units * Double.unitsPerOne) :=
    near_ofRatio square_pos (isOrdinary_factors hperiod hdraw)
  have hchain := hrounded.mul_right (nanosPerSecond * 100)
  rw [Nat.mul_right_comm _ Double.unitsPerOne] at hchain
  have htotal := hchain.trans ((near_factors hperiod hdraw).mul_right Double.unitsPerOne)
  apply Near.cancel square_pos
  convert htotal using 1 <;> ring

/-- More hundredths are not fewer seconds. -/
theorem units_hundredthsOf_mono (hperiod : period.IsInReach) (hdraw : draw < 100)
    (hle : less ≤ draw) : (hundredthsOf period less).units ≤ (hundredthsOf period draw).units := by
  have hmodest := (isOrdinary_factors hperiod hdraw).isModest square_pos
  have hpercent := Double.units_ofRatio_mono (by decide)
    ((isOrdinary_hundredths hdraw).isModest (by decide)) hle
  exact Double.units_ofRatio_mono square_pos hmodest (Nat.mul_le_mul_right _ hpercent)

/-- Four roundings add less than five parts in `2 ^ 53`. -/
theorem le_of_four_roundings {a b : Nat} (h : Near 4 a b) :
    9007199254740992 * a ≤ 9007199254740997 * b := by
  have hpower : twoTo 53 = 9007199254740992 := by decide
  have hfour : (9007199254740992 + 1) ^ 4 ≤ 9007199254740992 ^ 3 * 9007199254740997 := by norm_num
  have habove := h.above
  rw [hpower] at habove
  apply Nat.le_of_mul_le_mul_left _ (by norm_num : 0 < 9007199254740992 ^ 3)
  calc 9007199254740992 ^ 3 * (9007199254740992 * a)
      = 9007199254740992 ^ 4 * a := by ring
    _ ≤ (9007199254740992 + 1) ^ 4 * b := habove
    _ ≤ 9007199254740992 ^ 3 * 9007199254740997 * b := Nat.mul_le_mul_right b hfour
    _ = 9007199254740992 ^ 3 * (9007199254740997 * b) := Nat.mul_assoc _ _ _

/-! ## Delays and their periods -/

/-- So many hundredths of a duration, to the nearest nanosecond. -/
def delayOf (period : Duration) (draw : Nat) : Duration :=
  ⟨nearest ((hundredthsOf period draw).units * nanosPerSecond) Double.unitsPerOne⟩

theorem nanos_delayOf (period : Duration) (draw : Nat) : (delayOf period draw).nanos =
    nearest ((hundredthsOf period draw).units * nanosPerSecond) Double.unitsPerOne := by
  rw [delayOf]

theorem nearest_le_of_le {n num den : Nat} (hden : 0 < den) (h : num ≤ n * den) :
    nearest num den ≤ n := by
  rw [← nearest_exact n hden]
  exact nearest_mono h den

/-- What a period is longer than its delay by, in hundredths of a nanosecond. -/
def leftOut (period : Duration) (draw : Nat) : Nat := period.nanos * (100 - draw)

theorem delay_add_leftOut (hdraw : draw < 100) :
    draw * period.nanos + leftOut period draw = 100 * period.nanos := by
  rw [leftOut, Nat.mul_comm draw, ← Nat.mul_add, Nat.mul_comm 100]
  congr 1
  omega

theorem nanos_le_leftOut (hdraw : draw < 100) : period.nanos ≤ leftOut period draw :=
  Nat.le_mul_of_pos_right _ (by omega)

/-- The seconds of a delay are not more than those of its period. -/
theorem units_le (hperiod : period.IsInReach) (hdraw : draw < 100) :
    (hundredthsOf period draw).units * nanosPerSecond ≤ period.nanos * Double.unitsPerOne := by
  have hfour := le_of_four_roundings (near_hundredthsOf hperiod hdraw)
  have hsum : draw * period.nanos + leftOut period draw = 100 * period.nanos :=
    delay_add_leftOut hdraw
  have hleft : period.nanos ≤ leftOut period draw := nanos_le_leftOut hdraw
  have hparts : 9007199254740997 * (draw * period.nanos) ≤
      9007199254740992 * (100 * period.nanos) := by omega
  have hscaled := Nat.mul_le_mul_right Double.unitsPerOne hparts
  linarith

theorem jittered?_eq (hperiod : period.IsInReach) (hdraw : draw < 100) :
    jittered? period draw = some (delayOf period draw) := by
  obtain ⟨hfinite, hsign⟩ := Double.isFinite_ofRatio square_pos
    ((isOrdinary_factors hperiod hdraw).isModest square_pos)
  have hlength : (hundredthsOf period draw).IsLength :=
    ⟨hfinite, fun hnegative => absurd (hsign.symm.trans hnegative) (by decide)⟩
  have hreach : (hundredthsOf period draw).IsInReach := by
    have hunits := units_le hperiod hdraw
    have hseconds := Nat.mul_lt_mul_of_pos_right hperiod unitsPerOne_pos
    apply Nat.lt_of_mul_lt_mul_right (a := nanosPerSecond)
    calc (hundredthsOf period draw).units * nanosPerSecond
        ≤ period.nanos * Double.unitsPerOne := hunits
      _ < twoTo 64 * nanosPerSecond * Double.unitsPerOne := hseconds
      _ = twoTo 64 * Double.unitsPerOne * nanosPerSecond := Nat.mul_right_comm _ _ _
  exact hlength.ofDouble? hreach

theorem nanos_delayOf_le (hperiod : period.IsInReach) (hdraw : draw < 100) :
    (delayOf period draw).nanos ≤ period.nanos := by
  rw [nanos_delayOf]
  exact nearest_le_of_le unitsPerOne_pos (units_le hperiod hdraw)

theorem nanos_delayOf_mono (hperiod : period.IsInReach) (hdraw : draw < 100) (hle : less ≤ draw) :
    (delayOf period less).nanos ≤ (delayOf period draw).nanos := by
  rw [nanos_delayOf, nanos_delayOf]
  exact nearest_mono (Nat.mul_le_mul_right _ (units_hundredthsOf_mono hperiod hdraw hle)) _

/-- If more than half a nanosecond is left out, rounding does not make up for it. -/
theorem nanos_delayOf_lt (hperiod : period.IsInReach) (hdraw : draw < 100)
    (hleft : 50 < leftOut period draw) : (delayOf period draw).nanos < period.nanos := by
  have hfour := le_of_four_roundings (near_hundredthsOf hperiod hdraw)
  have hsum : draw * period.nanos + leftOut period draw = 100 * period.nanos :=
    delay_add_leftOut hdraw
  have hless : period.nanos ≤ leftOut period draw := nanos_le_leftOut hdraw
  have hparts : 9007199254740997 * (draw * period.nanos) + 50 * 9007199254740992 <
      9007199254740992 * (100 * period.nanos) := by omega
  have hscaled := Nat.mul_lt_mul_of_pos_right hparts unitsPerOne_pos
  have hnearest := (nearest_bounds ((hundredthsOf period draw).units * nanosPerSecond)
    unitsPerOne_pos).1
  rw [← nanos_delayOf] at hnearest
  apply Nat.lt_of_mul_lt_mul_right (a := Double.unitsPerOne)
  linarith

/-- If less than half a nanosecond is left out, rounding makes up for it. -/
theorem nanos_delayOf_eq (hperiod : period.IsInReach) (hdraw : draw < 100)
    (hleft : leftOut period draw < 50) : (delayOf period draw).nanos = period.nanos := by
  have hfour := le_of_four_roundings (near_hundredthsOf hperiod hdraw).symm
  have hsum : draw * period.nanos + leftOut period draw = 100 * period.nanos :=
    delay_add_leftOut hdraw
  have hless : period.nanos ≤ leftOut period draw := nanos_le_leftOut hdraw
  apply Nat.le_antisymm (nanos_delayOf_le hperiod hdraw)
  by_contra hlt
  have hparts : 9007199254740997 * (100 * period.nanos) <
      9007199254740992 * (draw * period.nanos) + 50 * 9007199254740997 := by omega
  have hscaled := Nat.mul_lt_mul_of_pos_right hparts unitsPerOne_pos
  have hnearest := (nearest_bounds ((hundredthsOf period draw).units * nanosPerSecond)
    unitsPerOne_pos).2
  rw [← nanos_delayOf] at hnearest
  have hbelow := Nat.mul_le_mul_right Double.unitsPerOne (Nat.succ_le_of_lt (Nat.not_le.mp hlt))
  rw [Nat.succ_eq_add_one, Nat.add_mul] at hbelow
  linarith

/-- If just half a nanosecond is left out, the period is short, and its double decides. -/
theorem nanos_delayOf_eq_iff_of_half (hdraw : draw < 100) (hleft : leftOut period draw = 50) :
    (delayOf period draw).nanos = period.nanos ↔ period.nanos ≤ 5 := by
  have hshort : ∀ n < 51, ∀ k < 100, n * (100 - k) = 50 → ((delayOf ⟨n⟩ k).nanos = n ↔ n ≤ 5) := by
    decide +kernel
  have hless : period.nanos ≤ leftOut period draw := nanos_le_leftOut hdraw
  exact hshort period.nanos (by omega) draw hdraw hleft

/-- Whether rounding makes up for what a delay leaves out of its period: that is less than half a
nanosecond, or just as much and the period is one of the shortest. -/
def IsMadeUp (period : Duration) (draw : Nat) : Prop :=
  leftOut period draw < 50 ∨ leftOut period draw = 50 ∧ period.nanos ≤ 5

theorem nanos_delayOf_eq_iff (hperiod : period.IsInReach) (hdraw : draw < 100) :
    (delayOf period draw).nanos = period.nanos ↔ IsMadeUp period draw := by
  unfold IsMadeUp
  rcases Nat.lt_trichotomy (leftOut period draw) 50 with hless | hhalf | hmore
  · exact iff_of_true (nanos_delayOf_eq hperiod hdraw hless) (.inl hless)
  · rw [nanos_delayOf_eq_iff_of_half hdraw hhalf]
    omega
  · apply iff_of_false (Nat.ne_of_lt (nanos_delayOf_lt hperiod hdraw hmore))
    omega

/-- For every period and every draw there is a delay, which is not longer than the period, so that
it is zero if the period is. It is as long as the period only if rounding makes up for what it
leaves out, and never for a period of fifty nanoseconds or more. A smaller draw does not make a
longer delay. -/
theorem delay_within_period (hperiod : period.IsInReach) (hdraw : draw < 100) :
    ∃ d, jittered? period draw = some d ∧ d.nanos ≤ period.nanos ∧
      (d.nanos = period.nanos ↔ IsMadeUp period draw) ∧
      (50 ≤ period.nanos → d.nanos < period.nanos) ∧
      ∀ less ≤ draw, ∃ e, jittered? period less = some e ∧ e.nanos ≤ d.nanos := by
  have hle := nanos_delayOf_le hperiod hdraw
  have hiff := nanos_delayOf_eq_iff hperiod hdraw
  refine ⟨delayOf period draw, jittered?_eq hperiod hdraw, hle, hiff, ?_, ?_⟩
  · intro hlong
    have hleft : period.nanos ≤ leftOut period draw := nanos_le_leftOut hdraw
    apply Nat.lt_of_le_of_ne hle
    intro heq
    have hmade : IsMadeUp period draw := hiff.mp heq
    unfold IsMadeUp at hmade
    omega
  · intro less hless
    exact ⟨delayOf period less, jittered?_eq hperiod (Nat.lt_of_le_of_lt hless hdraw),
      nanos_delayOf_mono hperiod hdraw hless⟩

/-- The longest delay of a minute is shorter than a minute. -/
theorem delay_within_period_minute :
    (Duration.ofSeconds 60).IsInReach ∧ ∃ d, jittered? (.ofSeconds 60) 99 = some d ∧
      d.nanos < (Duration.ofSeconds 60).nanos ∧
      ∃ e, jittered? (.ofSeconds 60) 57 = some e ∧ e.nanos ≤ d.nanos := by
  have hreach : (Duration.ofSeconds 60).IsInReach := by decide
  obtain ⟨d, hd, -, -, hless, hmono⟩ := delay_within_period hreach (by decide : 99 < 100)
  exact ⟨hreach, d, hd, hless (by decide), hmono 57 (by decide)⟩

/-- A delay of ninety-nine hundredths of a nanosecond is a nanosecond. -/
theorem delay_reaches_nanosecond :
    ¬ ∀ (period : Duration) (draw : Nat), period.IsInReach → draw < 100 →
      ∃ d, jittered? period draw = some d ∧ (period.nanos = 0 → d.nanos = 0) ∧
        (period.nanos ≠ 0 → d.nanos < period.nanos) ∧
        ∀ less ≤ draw, ∃ e, jittered? period less = some e ∧ e.nanos ≤ d.nanos := by
  intro h
  obtain ⟨d, hd, -, hless, -⟩ := h ⟨1⟩ 99 (by decide) (by decide)
  have hone : jittered? ⟨1⟩ 99 = some ⟨1⟩ := by decide +kernel
  obtain rfl := Option.some.inj (hone.symm.trans hd)
  exact absurd (hless (by decide)) (by decide)

end LeasedWork.Time
