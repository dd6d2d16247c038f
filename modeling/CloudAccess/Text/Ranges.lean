/-!
# Ranges of code points

A character property is a list of ranges, both ends included.
-/

namespace CloudAccess.Text

/-- Ranges of code points, both ends included. -/
abbrev Ranges := List (Nat × Nat)

/-- Whether some range contains the code point. -/
def Ranges.holds (rs : Ranges) (n : Nat) : Bool := rs.any fun (lo, hi) => lo ≤ n && n ≤ hi

end CloudAccess.Text
