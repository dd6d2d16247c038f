/-!
# Powers of two and ten

The two bases in which numbers are written here, as functions of the exponent.
-/

namespace CloudAccess

/-- A power of two. -/
abbrev twoPow (n : Nat) : Nat := Nat.pow 2 n

/-- A power of ten. -/
abbrev tenPow (n : Nat) : Nat := Nat.pow 10 n

example : twoPow 10 = 1024 ∧ tenPow 3 = 1000 := by decide

end CloudAccess
