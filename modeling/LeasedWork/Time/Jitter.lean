import LeasedWork.Time.Duration

/-!
# Jitter

Workers that start together are pulled apart by random delays: a whole number of hundredths, less
than a hundred, of the period in question. The random draws are data here.
-/
namespace LeasedWork.Time

/-- A delay of so many hundredths of a period. -/
def jittered? (period : Duration) (hundredths : Nat) : Option Duration := period.percent? hundredths

/-- The draws still to come: a list that is gone through again and again. -/
structure Draws where
  values : List Nat
  taken : Nat
  deriving DecidableEq, Inhabited, Repr

namespace Draws

/-- The draw if there is no list. -/
def steady : Nat := 50

def ofList (values : List Nat) : Draws := ⟨values, 0⟩

/-- The next draw, below a hundred, and those after it. -/
def next (d : Draws) : Nat × Draws :=
  (d.values.getD (d.taken % d.values.length) steady % 100, { d with taken := d.taken + 1 })

theorem next_lt (d : Draws) : d.next.1 < 100 := Nat.mod_lt _ (by decide)

end Draws

def jitter (period : Duration) (draws : Draws) : Duration × Draws :=
  ((jittered? period draws.next.1).getD .zero, draws.next.2)

end LeasedWork.Time
