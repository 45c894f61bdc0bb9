/-!
# Nearest integers

The one rounding rule of the library: a ratio goes to the nearest integer, and a tie to the even
one. It is stated on natural numbers so that it is monotone by arithmetic alone.
-/
namespace LeasedWork.Number

/-- The integer nearest to `num / den`; of two equally near ones the even one. -/
def nearest (num den : Nat) : Nat :=
  let floor := num / den
  let twice := 2 * (num % den)
  if twice < den then floor
  else if den < twice then floor + 1
  else if floor % 2 = 0 then floor else floor + 1

theorem nearest_exact (n : Nat) {den : Nat} (h : 0 < den) : nearest (n * den) den = n := by
  simp [nearest, Nat.mul_div_cancel n h, Nat.mul_mod_left, h]

theorem le_nearest (num den : Nat) : num / den ≤ nearest num den := by
  simp only [nearest]; split <;> (try split) <;> (try split) <;> omega

theorem nearest_le (num den : Nat) : nearest num den ≤ num / den + 1 := by
  simp only [nearest]; split <;> (try split) <;> (try split) <;> omega

/-- A larger number is not rounded to a smaller integer. -/
theorem nearest_mono {m n : Nat} (h : m ≤ n) (den : Nat) : nearest m den ≤ nearest n den := by
  rcases Nat.lt_or_ge (m / den) (n / den) with hfloor | hfloor
  · have hm := nearest_le m den
    have hn := le_nearest n den
    omega
  · have hfloor : m / den = n / den := Nat.le_antisymm (Nat.div_le_div_right h) hfloor
    have hrest : m % den ≤ n % den := by
      have hm := Nat.div_add_mod m den
      have hn := Nat.div_add_mod n den
      rw [hfloor] at hm
      omega
    simp only [nearest, hfloor]
    grind

end LeasedWork.Number
