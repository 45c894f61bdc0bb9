import LeasedWork.Number.Double
import Mathlib.Tactic.Linarith
import Mathlib.Tactic.Ring

/-!
# How doubles round

The double nearest to a ratio is a whole number of steps of the grid on which the doubles around it
lie. Its distance from the ratio is at most half a step, and a step is at most one part in `2 ^ 52`
of a ratio that is not tiny, so that a rounded result is off by one part in `2 ^ 53`. How far
several roundings lead away is a matter of counting them.
-/
namespace LeasedWork.Number

variable {m n num den : Nat}

theorem twoTo_add (m n : Nat) : twoTo (m + n) = twoTo m * twoTo n := Nat.pow_add 2 m n

theorem twoTo_le_twoTo (h : m ≤ n) : twoTo m ≤ twoTo n := Nat.pow_le_pow_right (by decide) h

theorem twoTo_lt_twoTo (h : m < n) : twoTo m < twoTo n := Nat.pow_lt_pow_right (by decide) h

theorem lt_twoTo_log2 (n : Nat) : n < twoTo (n.log2 + 1) := Nat.lt_log2_self

theorem twoTo_log2_le (h : n ≠ 0) : twoTo n.log2 ≤ n := Nat.log2_self_le h

theorem log2_lt (h : m ≠ 0) (hlt : m < twoTo n) : m.log2 < n := (Nat.log2_lt h).mpr hlt

theorem log2_mono (h : m ≤ n) : m.log2 ≤ n.log2 := by
  by_cases hm : m = 0
  · rw [hm, Nat.log2_zero]
    exact Nat.zero_le _
  · exact (Nat.le_log2 (by omega)).mpr (Nat.le_trans (twoTo_log2_le hm) h)

/-- The nearest integer is at most one half away. -/
theorem nearest_bounds (num : Nat) (hden : 0 < den) :
    2 * (nearest num den * den) ≤ 2 * num + den ∧
      2 * num ≤ 2 * (nearest num den * den) + den := by
  have hdivide := Nat.div_add_mod num den
  have hrest := Nat.mod_lt num hden
  have hfloor : num / den * den = den * (num / den) := Nat.mul_comm _ _
  have hnext : (num / den + 1) * den = den * (num / den) + den := by
    rw [Nat.add_mul, Nat.one_mul, hfloor]
  simp only [nearest]
  split
  · omega
  · split
    · omega
    · split <;> omega

/-! ## The grid around a ratio -/

/-- How far above the least positive double, in powers of two, the doubles around a ratio lie
apart. -/
def gridOf (num den : Nat) : Nat := (num * Double.unitsPerOne / den).log2 - 52

/-- A ratio as a number of steps of its grid. -/
def stepsOf (num den : Nat) : Nat :=
  nearest (num * Double.unitsPerOne) (den * twoTo (gridOf num den))

/-- Whether the doubles around a ratio have all their digits. -/
def IsNormal (num den : Nat) : Prop := twoTo 52 * den ≤ num * Double.unitsPerOne

theorem lt_grid (hden : 0 < den) :
    num * Double.unitsPerOne < twoTo 53 * (den * twoTo (gridOf num den)) := by
  have hfloor : num * Double.unitsPerOne / den < twoTo (53 + gridOf num den) := by
    apply Nat.lt_of_lt_of_le (lt_twoTo_log2 _)
    apply twoTo_le_twoTo
    simp only [gridOf]
    omega
  rw [Nat.div_lt_iff_lt_mul hden, twoTo_add] at hfloor
  calc num * Double.unitsPerOne
      < twoTo 53 * twoTo (gridOf num den) * den := hfloor
    _ = twoTo 53 * (den * twoTo (gridOf num den)) := by ring

theorem grid_le (hden : 0 < den) (h : IsNormal num den) :
    twoTo 52 * (den * twoTo (gridOf num den)) ≤ num * Double.unitsPerOne := by
  have hfloor : twoTo 52 ≤ num * Double.unitsPerOne / den := (Nat.le_div_iff_mul_le hden).mpr h
  have hpos : num * Double.unitsPerOne / den ≠ 0 :=
    Nat.ne_of_gt (Nat.lt_of_lt_of_le (twoTo_pos 52) hfloor)
  have hlog : 52 ≤ (num * Double.unitsPerOne / den).log2 := (Nat.le_log2 hpos).mpr hfloor
  have hsplit : (num * Double.unitsPerOne / den).log2 = 52 + gridOf num den := by
    simp only [gridOf]
    omega
  have hstep : twoTo (52 + gridOf num den) ≤ num * Double.unitsPerOne / den := by
    rw [← hsplit]
    exact twoTo_log2_le hpos
  rw [Nat.le_div_iff_mul_le hden, twoTo_add] at hstep
  calc twoTo 52 * (den * twoTo (gridOf num den))
      = twoTo 52 * twoTo (gridOf num den) * den := by ring
    _ ≤ num * Double.unitsPerOne := hstep

theorem stepsOf_le (hden : 0 < den) : stepsOf num den ≤ twoTo 53 := by
  have hstep : 0 < den * twoTo (gridOf num den) := Nat.mul_pos hden (twoTo_pos _)
  have hfloor : num * Double.unitsPerOne / (den * twoTo (gridOf num den)) < twoTo 53 :=
    (Nat.div_lt_iff_lt_mul hstep).mpr (lt_grid hden)
  exact Nat.le_trans (nearest_le _ _) hfloor

theorem le_stepsOf (hden : 0 < den) (h : IsNormal num den) : twoTo 52 ≤ stepsOf num den := by
  have hstep : 0 < den * twoTo (gridOf num den) := Nat.mul_pos hden (twoTo_pos _)
  exact Nat.le_trans ((Nat.le_div_iff_mul_le hstep).mpr (grid_le hden h)) (le_nearest _ _)

/-- Off the finest grid a double has all its digits. -/
theorem isNormal_of_gridOf (hden : 0 < den) (h : gridOf num den ≠ 0) : IsNormal num den := by
  have hlog : 52 ≤ (num * Double.unitsPerOne / den).log2 := by
    simp only [gridOf] at h
    omega
  have hpos : num * Double.unitsPerOne / den ≠ 0 := by
    intro hzero
    rw [hzero] at hlog
    exact absurd hlog (by decide)
  exact (Nat.le_div_iff_mul_le hden).mp ((Nat.le_log2 hpos).mp hlog)

namespace Double

/-- The double of some steps of a grid, with the carry of the last digit in place. -/
theorem units_ofMagnitudeBits {scale steps : Nat} (hsteps : steps ≤ twoTo 53)
    (hscale : scale ≠ 0 → twoTo 52 ≤ steps) (hfinite : scale < 2045) :
    let d := ofMagnitudeBits false (scale * twoTo 52 + steps)
    d.units = steps * twoTo scale ∧ d.isFinite = true ∧ d.isNegative = false := by
  have hpowers : twoTo 52 = 4503599627370496 ∧ twoTo 53 = 9007199254740992 ∧
      twoTo 63 = 9223372036854775808 := by decide
  obtain ⟨h52, h53, h63⟩ := hpowers
  rw [h53] at hsteps
  rw [h52] at hscale ⊢
  intro d
  have hbits : d.bits.toNat = scale * 4503599627370496 + steps := by
    simp only [d, ofMagnitudeBits, Bool.false_eq_true, if_false, Nat.add_zero, UInt64.toNat_ofNat']
    exact Nat.mod_eq_of_lt (by omega)
  have hmagnitude : d.magnitudeBits = scale * 4503599627370496 + steps := by
    rw [magnitudeBits, hbits, h63]
    exact Nat.mod_eq_of_lt (by omega)
  refine ⟨?_, ?_, ?_⟩
  · simp only [units, significand, Double.scale, exponentField, fractionField, hmagnitude, h52]
    rcases Nat.lt_or_ge steps 4503599627370496 with hlow | hlow
    · obtain rfl : scale = 0 := by
        by_contra hne
        exact absurd (hscale hne) (by omega)
      rw [Nat.zero_mul, Nat.zero_add, Nat.div_eq_of_lt hlow, Nat.mod_eq_of_lt hlow, if_pos rfl]
    · rw [if_neg (by omega)]
      rcases Nat.lt_or_ge steps 9007199254740992 with hhigh | hhigh
      · have hexponent :
            (scale * 4503599627370496 + steps) / 4503599627370496 - 1 = scale := by omega
        have hfraction : 4503599627370496 + (scale * 4503599627370496 + steps) % 4503599627370496 =
            steps := by omega
        rw [hexponent, hfraction]
      · -- the carry makes the next power of two
        have hexponent :
            (scale * 4503599627370496 + steps) / 4503599627370496 - 1 = scale + 1 := by omega
        have hfraction : 4503599627370496 + (scale * 4503599627370496 + steps) % 4503599627370496 =
            4503599627370496 := by omega
        have htwice : steps = 4503599627370496 * 2 := by omega
        rw [hexponent, hfraction, htwice, twoTo_add, Nat.mul_assoc, Nat.mul_comm (twoTo scale)]
        rfl
  · simp only [isFinite, exponentField, hmagnitude, h52, decide_eq_true_eq]
    omega
  · simp only [isNegative, hbits, h63, decide_eq_false_iff_not]
    omega

/-- A ratio so small that its double is finite. -/
def IsModest (num den : Nat) : Prop := num < den * twoTo 1000

theorem gridOf_lt (hden : 0 < den) (h : IsModest num den) : gridOf num den < 2045 := by
  have hfloor : num * unitsPerOne / den < twoTo (1000 + 1074) := by
    rw [Nat.div_lt_iff_lt_mul hden, twoTo_add 1000 1074]
    calc num * unitsPerOne
        < den * twoTo 1000 * twoTo 1074 := Nat.mul_lt_mul_of_pos_right h (twoTo_pos 1074)
      _ = twoTo 1000 * twoTo 1074 * den := by ring
  by_cases hzero : num * unitsPerOne / den = 0
  · simp only [gridOf, hzero]
    decide
  · have hlog := log2_lt hzero hfloor
    simp only [gridOf]
    omega

theorem ofRatio_eq (hden : 0 < den) (h : IsModest num den) :
    ofRatio num den = ofMagnitudeBits false (gridOf num den * twoTo 52 + stepsOf num den) := by
  have hsteps : stepsOf num den ≤ twoTo 53 := stepsOf_le hden
  have hgrid := gridOf_lt hden h
  have hfinite : gridOf num den * twoTo 52 + stepsOf num den ≤ infiniteBits := by
    have hpowers : twoTo 52 = 4503599627370496 ∧ twoTo 53 = 9007199254740992 ∧
        infiniteBits = 2047 * 4503599627370496 := by decide
    obtain ⟨h52, h53, hinfinite⟩ := hpowers
    rw [hinfinite, h52]
    rw [h53] at hsteps
    omega
  simp only [ofRatio, nearestBits]
  rw [← gridOf, ← stepsOf, Nat.min_eq_right hfinite]

theorem units_ofRatio (hden : 0 < den) (h : IsModest num den) :
    (ofRatio num den).units = stepsOf num den * twoTo (gridOf num den) := by
  rw [ofRatio_eq hden h]
  exact (units_ofMagnitudeBits (stepsOf_le hden)
    (fun hgrid => le_stepsOf hden (isNormal_of_gridOf hden hgrid)) (gridOf_lt hden h)).1

theorem isFinite_ofRatio (hden : 0 < den) (h : IsModest num den) :
    (ofRatio num den).isFinite = true ∧ (ofRatio num den).isNegative = false := by
  rw [ofRatio_eq hden h]
  exact (units_ofMagnitudeBits (stepsOf_le hden)
    (fun hgrid => le_stepsOf hden (isNormal_of_gridOf hden hgrid)) (gridOf_lt hden h)).2

/-- Of two ratios the larger one is not rounded to the smaller double. -/
theorem units_ofRatio_mono (hden : 0 < den) (h : IsModest n den) (hle : m ≤ n) :
    (ofRatio m den).units ≤ (ofRatio n den).units := by
  have hm : IsModest m den := Nat.lt_of_le_of_lt hle h
  have hunits : m * unitsPerOne ≤ n * unitsPerOne := Nat.mul_le_mul_right _ hle
  have hgrid : gridOf m den ≤ gridOf n den := by
    have hfloor := Nat.div_le_div_right (c := den) hunits
    have hlog := log2_mono hfloor
    simp only [gridOf]
    omega
  rw [units_ofRatio hden hm, units_ofRatio hden h]
  rcases Nat.eq_or_lt_of_le hgrid with heq | hlt
  · rw [stepsOf, stepsOf, heq]
    exact Nat.mul_le_mul_right _ (nearest_mono hunits _)
  · -- a coarser grid begins where the finer one ends
    have hnormal : IsNormal n den := isNormal_of_gridOf hden (by omega)
    calc stepsOf m den * twoTo (gridOf m den)
        ≤ twoTo 53 * twoTo (gridOf m den) := Nat.mul_le_mul_right _ (stepsOf_le hden)
      _ = twoTo 52 * twoTo (gridOf m den + 1) := by
        rw [show 53 = 52 + 1 from rfl, twoTo_add, twoTo_add]
        ring
      _ ≤ twoTo 52 * twoTo (gridOf n den) := Nat.mul_le_mul_left _ (twoTo_le_twoTo hlt)
      _ ≤ stepsOf n den * twoTo (gridOf n den) :=
        Nat.mul_le_mul_right _ (le_stepsOf hden hnormal)

end Double

/-! ## Counting roundings -/

variable {a b c d : Nat}

/-- Whether two quantities are no further apart than so many roundings lead. -/
structure Near (n a b : Nat) : Prop where
  above : twoTo 53 ^ n * a ≤ (twoTo 53 + 1) ^ n * b
  below : twoTo 53 ^ n * b ≤ (twoTo 53 + 1) ^ n * a

namespace Near

theorem symm (h : Near n a b) : Near n b a := ⟨h.below, h.above⟩

/-- One half of `trans`: a bound after `n` roundings, and another one after `m` more. -/
theorem above_trans (h : twoTo 53 ^ m * a ≤ (twoTo 53 + 1) ^ m * b)
    (h' : twoTo 53 ^ n * b ≤ (twoTo 53 + 1) ^ n * c) :
    twoTo 53 ^ (m + n) * a ≤ (twoTo 53 + 1) ^ (m + n) * c := by
  rw [pow_add, pow_add]
  calc twoTo 53 ^ m * twoTo 53 ^ n * a
      = twoTo 53 ^ n * (twoTo 53 ^ m * a) := by ring
    _ ≤ twoTo 53 ^ n * ((twoTo 53 + 1) ^ m * b) := Nat.mul_le_mul_left _ h
    _ = (twoTo 53 + 1) ^ m * (twoTo 53 ^ n * b) := by ring
    _ ≤ (twoTo 53 + 1) ^ m * ((twoTo 53 + 1) ^ n * c) := Nat.mul_le_mul_left _ h'
    _ = (twoTo 53 + 1) ^ m * (twoTo 53 + 1) ^ n * c := by ring

theorem trans (h : Near m a b) (h' : Near n b c) : Near (m + n) a c := by
  refine ⟨above_trans h.above h'.above, ?_⟩
  rw [Nat.add_comm m n]
  exact above_trans h'.below h.below

theorem mul_right (h : Near n a b) (c : Nat) : Near n (a * c) (b * c) := by
  constructor
  · rw [← Nat.mul_assoc, ← Nat.mul_assoc]
    exact Nat.mul_le_mul_right c h.above
  · rw [← Nat.mul_assoc, ← Nat.mul_assoc]
    exact Nat.mul_le_mul_right c h.below

theorem mul (h : Near m a b) (h' : Near n c d) : Near (m + n) (a * c) (b * d) := by
  have hfirst := h.mul_right c
  have hsecond := h'.mul_right b
  rw [Nat.mul_comm c b, Nat.mul_comm d b] at hsecond
  exact hfirst.trans hsecond

theorem add (h : Near n a b) (h' : Near n c d) : Near n (a + c) (b + d) := by
  constructor
  · rw [Nat.mul_add, Nat.mul_add]
    exact Nat.add_le_add h.above h'.above
  · rw [Nat.mul_add, Nat.mul_add]
    exact Nat.add_le_add h.below h'.below

theorem cancel (hc : 0 < c) (h : Near n (a * c) (b * c)) : Near n a b := by
  obtain ⟨habove, hbelow⟩ := h
  rw [← Nat.mul_assoc, ← Nat.mul_assoc] at habove hbelow
  exact ⟨Nat.le_of_mul_le_mul_right habove hc, Nat.le_of_mul_le_mul_right hbelow hc⟩

/-- A rounding at most doubles. -/
theorem le_two_pow_mul (h : Near n a b) : a ≤ 2 ^ n * b := by
  have hdouble : (twoTo 53 + 1) ^ n ≤ (twoTo 53 * 2) ^ n := Nat.pow_le_pow_left (by decide) n
  rw [Nat.mul_pow] at hdouble
  apply Nat.le_of_mul_le_mul_left _ (Nat.pow_pos (twoTo_pos 53) : 0 < twoTo 53 ^ n)
  calc twoTo 53 ^ n * a
      ≤ (twoTo 53 + 1) ^ n * b := h.above
    _ ≤ twoTo 53 ^ n * 2 ^ n * b := Nat.mul_le_mul_right b hdouble
    _ = twoTo 53 ^ n * (2 ^ n * b) := Nat.mul_assoc _ _ _

end Near

/-- Whether a ratio is zero or of a size that is met every day. -/
structure IsOrdinary (num den : Nat) : Prop where
  small : num ≤ den * twoTo 70
  large : num ≠ 0 → den ≤ num * twoTo 100

theorem IsOrdinary.isModest (h : IsOrdinary num den) (hden : 0 < den) :
    Double.IsModest num den := by
  apply Nat.lt_of_le_of_lt h.small
  exact Nat.mul_lt_mul_of_pos_left (twoTo_lt_twoTo (by decide)) hden

theorem IsOrdinary.isNormal (h : IsOrdinary num den) (hnum : num ≠ 0) : IsNormal num den := by
  have hunits : twoTo 52 * twoTo 100 ≤ Double.unitsPerOne := by
    rw [← twoTo_add]
    exact twoTo_le_twoTo (by decide)
  calc twoTo 52 * den
      ≤ twoTo 52 * (num * twoTo 100) := Nat.mul_le_mul_left _ (h.large hnum)
    _ = num * (twoTo 52 * twoTo 100) := by ring
    _ ≤ num * Double.unitsPerOne := Nat.mul_le_mul_left _ hunits

/-- A ratio that is near to one of a common size is of a common size. -/
theorem Near.isOrdinary (h : Near n (num * c) (a * den)) (hc : 0 < c)
    (hsmall : 2 ^ n * a ≤ c * twoTo 70) (hlarge : 2 ^ n * c ≤ twoTo 100) :
    IsOrdinary num den := by
  constructor
  · apply Nat.le_of_mul_le_mul_right _ hc
    calc num * c
        ≤ 2 ^ n * (a * den) := h.le_two_pow_mul
      _ = 2 ^ n * a * den := by ring
      _ ≤ c * twoTo 70 * den := Nat.mul_le_mul_right _ hsmall
      _ = den * twoTo 70 * c := by ring
  · intro hnum
    have ha : 0 < a := by
      apply Nat.pos_of_ne_zero
      rintro rfl
      have hzero := h.le_two_pow_mul
      rw [Nat.zero_mul, Nat.mul_zero, Nat.le_zero, Nat.mul_eq_zero] at hzero
      omega
    calc den
        ≤ a * den := Nat.le_mul_of_pos_left _ ha
      _ ≤ 2 ^ n * (num * c) := h.symm.le_two_pow_mul
      _ = num * (2 ^ n * c) := by ring
      _ ≤ num * twoTo 100 := Nat.mul_le_mul_left _ hlarge

/-- The double nearest to a ratio is one rounding away from it. -/
theorem near_ofRatio (hden : 0 < den) (h : IsOrdinary num den) :
    Near 1 ((Double.ofRatio num den).units * den) (num * Double.unitsPerOne) := by
  have hunits : (Double.ofRatio num den).units * den =
      stepsOf num den * (den * twoTo (gridOf num den)) := by
    rw [Double.units_ofRatio hden (h.isModest hden)]
    ring
  rw [hunits]
  by_cases hnum : num = 0
  · subst hnum
    have hsteps : stepsOf 0 den = 0 := by
      have hstep : 0 < den * twoTo (gridOf 0 den) := Nat.mul_pos hden (twoTo_pos _)
      have hexact := nearest_exact 0 hstep
      rw [Nat.zero_mul] at hexact
      rw [stepsOf, Nat.zero_mul, hexact]
    rw [hsteps]
    constructor <;> simp
  · have hstep : 0 < den * twoTo (gridOf num den) := Nat.mul_pos hden (twoTo_pos _)
    have hnormal := h.isNormal hnum
    obtain ⟨habove, hbelow⟩ := nearest_bounds (num * Double.unitsPerOne) hstep
    rw [← stepsOf] at habove hbelow
    have hratio := grid_le hden hnormal
    have hrounded := Nat.mul_le_mul_right (den * twoTo (gridOf num den)) (le_stepsOf hden hnormal)
    have hpowers : twoTo 52 = 4503599627370496 ∧ twoTo 53 = 9007199254740992 := by decide
    rw [hpowers.1] at hratio hrounded
    generalize den * twoTo (gridOf num den) = step at *
    generalize stepsOf num den * step = rounded at *
    generalize num * Double.unitsPerOne = ratio at *
    constructor
    · rw [pow_one, pow_one, hpowers.2]
      omega
    · rw [pow_one, pow_one, hpowers.2]
      omega

end LeasedWork.Number
