import LeasedWork.Engine.Heartbeat

/-!
# Longer intervals between heartbeats

The period of heartbeats comes from a setting in three stages: a text is read, the number is turned
into a duration, and the duration is raised to the floor. The first stage lets no number through
that is negative or not finite, and the others keep the order of numbers below `2 ^ 64`. A larger
number has no duration and is taken for zero, as a negative one is, so that the longest intervals
make the most frequent heartbeats.
-/
namespace LeasedWork

open Time (Duration)

namespace Number.Double

variable {d : Double}

/-- Whether a double is finite and not below zero. -/
def IsLength (d : Double) : Prop := d.isFinite ∧ (d.isNegative → d.isZero)

/-- Whether a number of seconds is small enough for a duration. -/
def IsInReach (d : Double) : Prop := d.units < twoTo 64 * unitsPerOne

instance : DecidablePred IsLength := fun d => by
  unfold IsLength
  infer_instance

instance : DecidablePred IsInReach := fun d => by
  unfold IsInReach
  infer_instance

theorem isLength_of_isPositive (hfinite : d.isFinite = true) (h : d.isPositive = true) :
    d.IsLength := by
  simp only [isPositive, Bool.and_eq_true, Bool.not_eq_true'] at h
  refine ⟨hfinite, fun hnegative => ?_⟩
  exact absurd (h.1.1.symm.trans hnegative) (by simp)

theorem IsLength.ofDouble? (h : d.IsLength) (hreach : d.IsInReach) : Duration.ofDouble? d =
    some ⟨nearest (d.units * Time.nanosPerSecond) unitsPerOne⟩ :=
  if_pos ⟨h.1, h.2, hreach⟩

theorem ofDouble?_of_not_isInReach (h : ¬ d.IsInReach) : Duration.ofDouble? d = none :=
  if_neg fun hd => h hd.2.2

end Number.Double

namespace Engine.Heartbeat

theorem effectivePeriod_mono {p q : Duration} (h : p.nanos ≤ q.nanos) :
    (effectivePeriod p).nanos ≤ (effectivePeriod q).nanos := by
  simp only [effectivePeriod, Duration.nanos_max]
  exact Nat.max_le.mpr ⟨Nat.le_trans h (Nat.le_max_left _ _), Nat.le_max_right _ _⟩

theorem periodFloor_le (p : Duration) : periodFloor.nanos ≤ (effectivePeriod p).nanos :=
  Nat.le_max_right _ _

theorem effectivePeriod_zero : effectivePeriod .zero = periodFloor := rfl

theorem effectivePeriod_le_floor_iff (p : Duration) :
    (effectivePeriod p).nanos ≤ periodFloor.nanos ↔ effectivePeriod p = periodFloor := by
  constructor
  · intro h
    have heq := Nat.le_antisymm h (periodFloor_le p)
    cases hp : effectivePeriod p
    rw [hp] at heq
    exact congrArg Duration.mk heq
  · intro h
    exact Nat.le_of_eq (congrArg Duration.nanos h)

end Engine.Heartbeat

namespace Timing

open Number (Double nearest_mono)
open Engine.Heartbeat

variable {t u : Timing}

theorem isLength_of_intervalOf? {value : String} {d : Double} (h : intervalOf? value = some d) :
    d.IsLength := by
  have hd := (Option.filter_eq_some_iff.mp h).2
  rw [Bool.and_eq_true] at hd
  exact Double.isLength_of_isPositive hd.1 hd.2

/-- Whatever the variables say, the interval is finite and not below zero. -/
theorem isLength_ofLookup (lookup : String → Option String) :
    (ofLookup lookup).beatInterval.IsLength := by
  unfold ofLookup
  cases h : (lookup beatVariable).bind intervalOf? with
  | none =>
    have hdefault : defaultBeatInterval.IsLength := by decide +kernel
    exact hdefault
  | some d =>
    obtain ⟨value, -, hvalue⟩ := Option.bind_eq_some_iff.mp h
    exact isLength_of_intervalOf? hvalue

theorem beatPeriod_of_not_isInReach (h : ¬ t.beatInterval.IsInReach) :
    t.beatPeriod = Duration.zero := by
  rw [beatPeriod, Double.ofDouble?_of_not_isInReach h, Option.getD_none]

/-- Of two intervals that have a duration the longer one makes the longer period. -/
theorem beatPeriod_mono (ht : t.beatInterval.IsLength) (hu : u.beatInterval.IsLength)
    (hle : t.beatInterval.units ≤ u.beatInterval.units) (hreach : u.beatInterval.IsInReach) :
    t.beatPeriod.nanos ≤ u.beatPeriod.nanos := by
  have hreach' : t.beatInterval.IsInReach := Nat.lt_of_le_of_lt hle hreach
  simp only [beatPeriod, ht.ofDouble? hreach', hu.ofDouble? hreach, Option.getD_some]
  exact nearest_mono (Nat.mul_le_mul_right _ hle) _

/-- What it comes to that the interval of one setting is not shorter than that of another. -/
structure Prolongs (t u : Timing) : Prop where
  /-- The period is not shorter either, unless it is lost because the interval is out of reach. -/
  period : t.beatPeriod.nanos ≤ u.beatPeriod.nanos ↔
    u.beatInterval.IsInReach ∨ t.beatPeriod = .zero
  /-- The same holds of the period that heartbeats keep to. -/
  effective : (effectivePeriod t.beatPeriod).nanos ≤ (effectivePeriod u.beatPeriod).nanos ↔
    u.beatInterval.IsInReach ∨ effectivePeriod t.beatPeriod = periodFloor
  /-- If the period is lost, heartbeats are as frequent as they can be. -/
  lost : ¬ u.beatInterval.IsInReach → effectivePeriod u.beatPeriod = periodFloor

theorem prolongs_of_isInReach (hperiod : t.beatPeriod.nanos ≤ u.beatPeriod.nanos)
    (hreach : u.beatInterval.IsInReach) : t.Prolongs u where
  period := iff_of_true hperiod (.inl hreach)
  effective := iff_of_true (effectivePeriod_mono hperiod) (.inl hreach)
  lost h := absurd hreach h

theorem prolongs_of_not_isInReach (h : ¬ u.beatInterval.IsInReach) : t.Prolongs u := by
  have hzero := beatPeriod_of_not_isInReach h
  refine ⟨?_, ?_, fun _ => by rw [hzero, effectivePeriod_zero]⟩
  · rw [hzero, or_iff_right h]
    cases t.beatPeriod
    simp [Duration.zero]
  · rw [hzero, effectivePeriod_zero, or_iff_right h, effectivePeriod_le_floor_iff]

/-- The setting of someone who gives nothing but the interval between heartbeats. -/
def ofBeatText (value : String) : Timing :=
  ofLookup fun name => if name = beatVariable then some value else none

/-- A longer interval between heartbeats makes a period that is not shorter, as long as it is below
`2 ^ 64` seconds, and no other does unless the period is the least one anyway. Variables always
give an interval of which this holds. -/
theorem longer_interval_beats_no_more_often (lookup : String → Option String) (t u : Timing) :
    (ofLookup lookup).beatInterval.IsLength ∧
      (t.beatInterval.IsLength → u.beatInterval.IsLength →
        t.beatInterval.units ≤ u.beatInterval.units → t.Prolongs u) := by
  refine ⟨isLength_ofLookup lookup, fun ht hu hle => ?_⟩
  by_cases hreach : u.beatInterval.IsInReach
  · exact prolongs_of_isInReach (beatPeriod_mono ht hu hle hreach) hreach
  · exact prolongs_of_not_isInReach hreach

/-- A minute is a longer period than half a minute. -/
theorem longer_interval_beats_no_more_often_minute :
    (effectivePeriod (ofBeatText "30.5").beatPeriod).nanos ≤
      (effectivePeriod (ofBeatText "6e1").beatPeriod).nanos := by
  have hlonger : (ofBeatText "30.5").Prolongs (ofBeatText "6e1") :=
    (longer_interval_beats_no_more_often (fun _ => none) _ _).2 (isLength_ofLookup _)
      (isLength_ofLookup _) (by decide +kernel)
  exact hlonger.effective.mpr (.inl (by decide +kernel))

/-- The period that comes of `1e20` seconds is shorter than that of a minute. -/
theorem huge_interval_beats_more_often :
    ¬ ∀ t u : Timing, t.beatInterval.IsLength → u.beatInterval.IsLength →
      t.beatInterval.units ≤ u.beatInterval.units →
        t.beatPeriod.nanos ≤ u.beatPeriod.nanos ∧
          (effectivePeriod t.beatPeriod).nanos ≤ (effectivePeriod u.beatPeriod).nanos := by
  intro h
  have hshorter := (h (ofBeatText "6e1") (ofBeatText "1e20") (isLength_ofLookup _)
    (isLength_ofLookup _) (by decide +kernel)).2
  exact absurd hshorter (by decide +kernel)

end Timing

end LeasedWork
