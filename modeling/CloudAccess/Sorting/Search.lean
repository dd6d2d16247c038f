/-!
# Searching with few tests

Where the items at the start of a list pass a test and all others fail it, their number is found
without testing every item.  A test may itself fail; the first one that does is the error.

* `halving`: the number of items that pass, by halving.
* `leaping`: the same, from the start in leaps that grow, and then by halving.

Both take the function that picks the middle of so many items.
-/

namespace CloudAccess.Sorting

variable {ε α : Type}

/-- The number of items that pass, by halving. -/
def halving (middle : Nat → Nat) (test : α → Except ε Bool) (items : List α) : Except ε Nat :=
  match _h : items[middle items.length]? with
  | none => .ok 0
  | some a => do
    if ← test a then
      return middle items.length + 1 +
        (← halving middle test (items.drop (middle items.length + 1)))
    halving middle test (items.take (middle items.length))
termination_by items.length
decreasing_by
  all_goals
    have := (List.getElem?_eq_some_iff.1 _h).1
    simp only [List.length_drop, List.length_take]
    omega

/-- The number of items that pass, where the next to be tested is so far ahead; each leap is twice
as long as the one before and one more. -/
def leapingFrom (middle : Nat → Nat) (test : α → Except ε Bool) (ahead : Nat) (items : List α) :
    Except ε Nat :=
  match _h : items[ahead]? with
  | none => halving middle test items
  | some a => do
    if ← test a then
      return ahead + 1 + (← leapingFrom middle test (2 * ahead + 1) (items.drop (ahead + 1)))
    halving middle test (items.take ahead)
termination_by items.length
decreasing_by
  have := (List.getElem?_eq_some_iff.1 _h).1
  simp only [List.length_drop]
  omega

/-- The number of items that pass, in leaps from the start. -/
def leaping (middle : Nat → Nat) (test : α → Except ε Bool) : List α → Except ε Nat
  | [] => .ok 0
  | a :: rest => do
    if ← test a then return 1 + (← leapingFrom middle test 0 rest)
    return 0

end CloudAccess.Sorting
