import CloudAccess.Sorting.Search

/-!
# Merging two ascending lists

`merge before` puts the items of two ascending lists into one, with few comparisons.  Items that
need not move are left out first: those of the first list at its start, and those of the second
at its end.  The others are merged upward from the start if the first list is the shorter one,
and else downward from the end.

A merge goes on item by item, until one list has given as many items in a row as the merge has
patience.  From then on it leaps: it looks for the number of items that one list gives in a row,
and then for those of the other, as long as the leaps are long.  The patience grows whenever
leaping ends and shrinks while it lasts, and one merge hands it on to the next.

* `Merging`: a merge under way, and `Merging.step`, which takes at least one item.
* `merge`: the merged list and the patience that is left.
-/

namespace CloudAccess.Sorting

variable {ε α σ : Type}

/-- Takes steps as long as there is something to do, at most so many. -/
def advance (done : σ → Bool) (step : σ → Except ε σ) : Nat → σ → Except ε σ
  | 0, s => .ok s
  | n + 1, s => if done s then .ok s else do advance done step n (← step s)

/-- Where a merge begins. -/
inductive Direction where
  /-- At the start of both lists. -/
  | up
  /-- At their end; both lists are given in descending order. -/
  | down
deriving DecidableEq

namespace Direction

/-- Whether an item of the first list is taken and not one of the second; of items neither of
which comes before the other, that of the first list belongs in front. -/
def takesFirst (d : Direction) (before : α → α → Except ε Bool) (a b : α) : Except ε Bool := do
  let less ← before b a
  return match d with
    | up => !less
    | down => less

/-- The middle of so many items, the lower one of two. -/
def middle : Direction → Nat → Nat
  | up, n => n / 2
  | down, n => (n - 1) / 2

end Direction

/-- How a merge goes on. -/
inductive Pace where
  /-- Item by item; one of the lists has given so many in a row. -/
  | walk (first second : Nat)
  /-- Leaping over items of the first list. -/
  | leap
  /-- Leaping over items of the second list, after so many of the first. -/
  | leapBack (first : Nat)

/-- A leap over that many items is long. -/
def longLeap : Nat := 7

/-- A merge under way. -/
structure Merging (α : Type) where
  /-- The items merged so far, the last one first. -/
  taken : List α
  first : List α
  second : List α
  pace : Pace
  patience : Nat

namespace Merging

def start (first second : List α) (patience : Nat) : Merging α :=
  ⟨[], first, second, .walk 0 0, patience⟩

/-- Whether the place of all other items is known: one list has none left, or one has only the
item that belongs behind all others. -/
def isDone (d : Direction) (m : Merging α) : Bool :=
  match d with
  | .up => (m.first.drop 1).isEmpty || m.second.isEmpty
  | .down => m.first.isEmpty || (m.second.drop 1).isEmpty

/-- The items in the order in which they are merged, once their place is known. -/
def result (d : Direction) (m : Merging α) : List α :=
  m.taken.reverse ++ match d with
    | .up => m.second ++ m.first
    | .down => m.first ++ m.second

def takeFirst (n : Nat) (m : Merging α) : Merging α :=
  { m with taken := (m.first.take n).reverse ++ m.taken, first := m.first.drop n }

def takeSecond (n : Nat) (m : Merging α) : Merging α :=
  { m with taken := (m.second.take n).reverse ++ m.taken, second := m.second.drop n }

/-- The pace after an item was taken, when the lists have given so many in a row. -/
def walkOn (first second : Nat) (m : Merging α) : Merging α :=
  let impatient := m.patience ≤ first || m.patience ≤ second
  { m with pace := if impatient then .leap else .walk first second }

/-- The pace after leaps over so many items; a merge that is done keeps its patience. -/
def leapOn (d : Direction) (first second : Nat) (m : Merging α) : Merging α :=
  if m.isDone d then m
  else if longLeap ≤ first || longLeap ≤ second then
    { m with pace := .leap, patience := max 1 (m.patience - 1) }
  else { m with pace := .walk 0 0, patience := m.patience + 1 }

/-- Takes the next items of a merge. -/
def step (d : Direction) (before : α → α → Except ε Bool) (m : Merging α) :
    Except ε (Merging α) :=
  match m.first, m.second with
  | a :: _, b :: _ =>
    match m.pace with
    | .walk first second => do
      if ← d.takesFirst before a b then return (m.takeFirst 1).walkOn (first + 1) 0
      return (m.takeSecond 1).walkOn 0 (second + 1)
    | .leap => do
      let n ← leaping d.middle (fun x => d.takesFirst before x b) m.first
      return { (m.takeFirst n).takeSecond 1 with pace := .leapBack n }
    | .leapBack first => do
      let n ← leaping d.middle (fun y => (d.takesFirst before a y).map not) m.second
      return ((m.takeSecond n).takeFirst 1).leapOn d first n
  | _, _ => .ok m

/-- Merges to the end; no step takes nothing, so there are no more steps than items. -/
def finish (d : Direction) (before : α → α → Except ε Bool) (m : Merging α) :
    Except ε (List α × Nat) := do
  let m ← advance (isDone d) (step d before) (m.first.length + m.second.length) m
  return (m.result d, m.patience)

end Merging

/-- Two ascending lists merged, and the patience that is left. -/
def merge (before : α → α → Except ε Bool) (patience : Nat) (first second : List α) :
    Except ε (List α × Nat) :=
  match second with
  | [] => .ok (first, patience)
  | b :: _ => do
    let settled ← leaping Direction.up.middle (fun a => (before b a).map not) first
    match (first.drop settled).reverse with
    | [] => return (first ++ second, patience)
    | a :: others => do
      let beyond ← leaping Direction.down.middle (fun b => (before b a).map not) second.reverse
      let below := first.take settled
      let within := second.take (second.length - beyond)
      let above := second.drop (second.length - beyond)
      let (middle, patience) ←
        if others.length < within.length then
          ((Merging.start (first.drop settled) within patience).takeSecond 1).finish .up before
        else do
          let (items, patience) ←
            ((Merging.start (a :: others) within.reverse patience).takeFirst 1).finish .down before
          pure (items.reverse, patience)
      return (below ++ middle ++ above, patience)

end CloudAccess.Sorting
