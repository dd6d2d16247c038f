/-!
# Words that are close

How much two texts are alike is told by the characters they share in order: those of their longest
common run, and those shared before it and after it, found in the same way.

* `shared`: how many characters two texts share.
* `closest`: the few names that are close to a word.
-/

namespace CloudAccess.Text

/-! ## Shared characters -/

/-- How many characters two texts have in common at their start. -/
def commonStart : List Char → List Char → Nat
  | a :: as, b :: bs => if a = b then commonStart as bs + 1 else 0
  | _, _ => 0

theorem commonStart_le_left (as bs : List Char) : commonStart as bs ≤ as.length := by
  fun_induction commonStart as bs with
  | case1 => simp only [List.length_cons]; omega
  | case2 => exact Nat.zero_le _
  | case3 => exact Nat.zero_le _

/-- A run of characters that stands in two texts: what is before it in each, its length, and what
is after it. -/
structure CommonRun where
  before : List Char × List Char
  length : Nat
  after : List Char × List Char

namespace CommonRun

/-- The run that begins at a place of each text. -/
def startingAt (as bs : List Char) (i j : Nat) : CommonRun :=
  let n := commonStart (as.drop i) (bs.drop j)
  ⟨(as.take i, bs.take j), n, (as.drop (i + n), bs.drop (j + n))⟩

/-- The runs that begin at some place of each text, in the order of these places. -/
def all (as bs : List Char) : List CommonRun :=
  (List.range as.length).flatMap fun i => (List.range bs.length).map fun j => startingAt as bs i j

/-- The longest run; of several the one that begins first in the first text, then in the second
one. -/
def longest (as bs : List Char) : CommonRun :=
  ((all as bs).maxOn? CommonRun.length).getD (startingAt as bs 0 0)

/-- Whether a run leaves less of the first text on either side than there was. -/
def Shortens (n : Nat) (r : CommonRun) : Prop :=
  0 < r.length → r.before.1.length < n ∧ r.after.1.length < n

theorem shortens_startingAt (as bs : List Char) (i j : Nat) :
    (startingAt as bs i j).Shortens as.length := by
  intro h
  have hn := commonStart_le_left (as.drop i) (bs.drop j)
  simp only [startingAt, List.length_drop, List.length_take] at h hn ⊢
  omega

theorem shortens_longest (as bs : List Char) : (longest as bs).Shortens as.length := by
  unfold longest
  cases h : (all as bs).maxOn? CommonRun.length with
  | none => exact shortens_startingAt as bs 0 0
  | some r =>
    obtain ⟨i, _, hr⟩ := List.mem_flatMap.1 (List.maxOn?_mem h)
    obtain ⟨j, _, rfl⟩ := List.mem_map.1 hr
    exact shortens_startingAt as bs i j

end CommonRun

/-- How many characters two texts share. -/
def shared (as bs : List Char) : Nat :=
  let r := CommonRun.longest as bs
  if _h : 0 < r.length then
    shared r.before.1 r.before.2 + r.length + shared r.after.1 r.after.2
  else 0
termination_by as.length
decreasing_by
  · exact (CommonRun.shortens_longest as bs _h).1
  · exact (CommonRun.shortens_longest as bs _h).2

/-! ## Close names -/

/-- A name, and how much it is like a word: the shared characters against all of both. -/
structure Likeness where
  name : String
  shared : Nat
  total : Nat

namespace Likeness

def of (word name : String) : Likeness :=
  ⟨name, Text.shared name.toList word.toList, name.length + word.length⟩

/-- Whether the two share three fifths of their characters. -/
def isClose (l : Likeness) : Bool := 3 * l.total ≤ 10 * l.shared

/-- Whether the first name comes no later than the second in the order of likeness; of names that
are equally alike the last one comes first. -/
def atLeast (l m : Likeness) : Bool :=
  if l.shared * m.total = m.shared * l.total then m.name ≤ l.name
  else m.shared * l.total < l.shared * m.total

end Likeness

/-- Whether two texts are so much alike in length that they can be close. -/
def similarLength (word name : String) : Bool :=
  3 * (name.length + word.length) ≤ 10 * min name.length word.length

/-- The most names that are given as close to a word. -/
def closestLimit : Nat := 3

/-- The names closest to a word, in the order of texts. -/
def closest (word : String) (names : List String) : List String :=
  let likely := names.filter (similarLength word)
  let close := (likely.map (Likeness.of word)).filter Likeness.isClose
  let best := (close.mergeSort Likeness.atLeast).take closestLimit
  (best.map Likeness.name).mergeSort fun a b => a ≤ b

end CloudAccess.Text
