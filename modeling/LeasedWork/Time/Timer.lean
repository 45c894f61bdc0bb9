import LeasedWork.Time.Duration

/-!
# Timers

Whoever sleeps leaves it to the runtime's timer how long that lasts. The usual timer lets a sleep
last as long as was asked, but no longer than thirty years.
-/
namespace LeasedWork.Time

/-- How long sleeps last. -/
structure Timer where
  lasting : Duration → Duration
  deriving Inhabited

namespace Timer

/-- The longest sleep of the usual timer in milliseconds: thirty years of 365 days. -/
def longestSleep : Nat := 30 * 365 * 24 * 60 * 60 * 1000

def usual : Timer := ⟨fun d => ⟨min d.nanos (Duration.ofMillis longestSleep).nanos⟩⟩

/-- Whether a sleep of a duration is over only when that much time has passed, which is what a timer
is for. -/
def Keeps (t : Timer) (d : Duration) : Prop := d.nanos ≤ (t.lasting d).nanos

instance (t : Timer) (d : Duration) : Decidable (t.Keeps d) :=
  inferInstanceAs (Decidable (_ ≤ _))

theorem usual_keeps {d : Duration} (h : d.nanos ≤ (Duration.ofMillis longestSleep).nanos) :
    usual.Keeps d :=
  Nat.le_min.mpr ⟨Nat.le_refl _, h⟩

end Timer

end LeasedWork.Time
