/-!
# Powers

The powers of two that bound machine words and scale doubles, and the powers of ten of decimal
numerals.
-/
namespace LeasedWork.Number

def twoTo (n : Nat) : Nat := Nat.pow 2 n

def tenTo (n : Nat) : Nat := Nat.pow 10 n

theorem twoTo_pos (n : Nat) : 0 < twoTo n := Nat.pow_pos (by decide)

end LeasedWork.Number
