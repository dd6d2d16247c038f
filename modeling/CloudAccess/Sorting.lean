import CloudAccess.Number.Power
import CloudAccess.Sorting.Merge

/-!
# Sorting by a comparison that can fail

`sortWith before` puts a list in ascending order when not every pair of its items can be compared.
The first comparison that fails is the error, so the order in which items are compared matters.

The list is cut into stretches that stand in order, and short ones are filled up with the items
that follow.  Neighbouring stretches are merged as they are found: those that lie close together
before those that lie apart.

* `leadingRun`: the items in order at the start, and the others.
* `place`: an item put into an ascending list, after those that it does not come before.
* `partingLevel`: how close together two neighbouring stretches lie.
-/

namespace CloudAccess

namespace Sorting

variable {ε α : Type}

/-! ## Stretches -/

/-- The items that follow on a last one in ascending order, and those after them. -/
def risingRun (before : α → α → Except ε Bool) (last : α) :
    List α → Except ε (List α × List α)
  | [] => .ok ([], [])
  | a :: rest => do
    if ← before a last then return ([], a :: rest)
    let (run, others) ← risingRun before a rest
    return (a :: run, others)

/-- The items that follow on a last one, each before the one it follows on, and those after
them. -/
def fallingRun (before : α → α → Except ε Bool) (last : α) :
    List α → Except ε (List α × List α)
  | [] => .ok ([], [])
  | a :: rest => do
    if ← before a last then
      let (run, others) ← fallingRun before a rest
      return (a :: run, others)
    return ([], a :: rest)

/-- The items that stand in order at the start, in ascending order, and the others. -/
def leadingRun (before : α → α → Except ε Bool) : List α → Except ε (List α × List α)
  | [] => .ok ([], [])
  | [a] => .ok ([a], [])
  | a :: b :: rest => do
    if ← before b a then
      let (run, others) ← fallingRun before b rest
      return ((a :: b :: run).reverse, others)
    let (run, others) ← risingRun before b rest
    return (a :: b :: run, others)

/-- Puts an item into an ascending list, after those that it does not come before. -/
def place (before : α → α → Except ε Bool) (a : α) (items : List α) : Except ε (List α) := do
  let n ← halving (· / 2) (fun b => (before a b).map not) items
  return items.take n ++ a :: items.drop n

/-- The first stretch of at least so many items, if there are so many, and the others. -/
def stretch (before : α → α → Except ε Bool) (least : Nat) (items : List α) :
    Except ε (List α × List α) := do
  let (run, others) ← leadingRun before items
  let missing := least - run.length
  let filled ← (others.take missing).foldlM (fun sorted a => place before a sorted) run
  return (filled, others.drop missing)

/-- Lists below this length are one stretch. -/
def shortLength : Nat := 64

/-- The least length of the stretches of a list: halved until it is short, and rounded up. -/
def leastStretch (length : Nat) : Nat :=
  if length < shortLength then length
  else
    let halvings := length.log2 - 5
    (length + twoPow halvings - 1) / twoPow halvings

/-- The level at which the middles of two neighbouring stretches are parted when a whole of so
many items is halved over and over; the middles are given doubled. -/
def partingLevel (total middle next : Nat) : Nat :=
  let part (at_ level : Nat) : Nat := at_ * twoPow level / total
  ((List.range (total.log2 + 2)).find? fun level =>
    part middle level ≠ part next level).getD 0

/-! ## Merging stretches -/

/-- Stretches that have been found but not merged, and the items not looked at. -/
structure Piles (α : Type) where
  /-- The last stretch. -/
  last : List α
  /-- Those before it, each with the level that parts it from the next; the latest one first. -/
  earlier : List (List α × Nat)
  patience : Nat
  /-- How many items the stretches have. -/
  seen : Nat
  rest : List α

/-- Merges earlier stretches into the last one as long as they are parted at a deeper level. -/
def settle (before : α → α → Except ε Bool) (level patience : Nat) (last : List α) :
    List (List α × Nat) → Except ε (List α × List (List α × Nat) × Nat)
  | [] => .ok (last, [], patience)
  | (items, parting) :: earlier => do
    if parting ≤ level then return (last, (items, parting) :: earlier, patience)
    let (items, patience) ← merge before patience items last
    settle before level patience items earlier

/-- Finds the next stretch. -/
def Piles.next (before : α → α → Except ε Bool) (total : Nat) (p : Piles α) :
    Except ε (Piles α) := do
  let (items, rest) ← stretch before (leastStretch total) p.rest
  let level := partingLevel total (2 * p.seen - p.last.length) (2 * p.seen + items.length)
  let (last, earlier, patience) ← settle before level p.patience p.last p.earlier
  return ⟨items, (last, level) :: earlier, patience, p.seen + items.length, rest⟩

/-- Merges all stretches, the latest one first; the one before it goes to its shorter
neighbour. -/
def collapse (before : α → α → Except ε Bool) (patience : Nat) (last : List α) :
    List (List α) → Except ε (List α)
  | [] => .ok last
  | [a] => do return (← merge before patience a last).1
  | b :: a :: earlier => do
    if a.length < last.length then
      let (items, patience) ← merge before patience a b
      collapse before patience last (items :: earlier)
    else
      let (items, patience) ← merge before patience b last
      collapse before patience items (a :: earlier)
termination_by earlier => earlier.length

end Sorting

open Sorting in
/-- The items in ascending order.  Every stretch has an item, so there are no more stretches than
items. -/
def sortWith {ε α : Type} (before : α → α → Except ε Bool) (items : List α) :
    Except ε (List α) := do
  let (first, rest) ← stretch before (leastStretch items.length) items
  let piles ← advance (·.rest.isEmpty) (Piles.next before items.length) items.length
    ⟨first, [], longLeap, first.length, rest⟩
  collapse before piles.patience piles.last (piles.earlier.map (·.1))

end CloudAccess
