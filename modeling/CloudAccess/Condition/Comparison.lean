import CloudAccess.Condition.Failure
import CloudAccess.Glob
import CloudAccess.Net.Address
import CloudAccess.Text.Numeral
import CloudAccess.Time.Iso

/-!
# Comparisons

What an operator of a condition compares, and how.  Both sides are turned into what is compared,
the actual value first; a value that cannot be is a failure.
-/

namespace CloudAccess.Condition

/-! ## What values denote -/

def boolOf (f : Fact) : Except Failure Bool :=
  let text := Text.lower f.shown
  if text = "true" then .ok true
  else if text = "false" then .ok false
  else .error (.notBoolean f)

def numberOf : Fact → Except Failure Double
  | .json (.bool b) => .ok (.ofRatio false (if b then 1 else 0) 1)
  | .json (.int n) => match Double.ofInt? n with
    | some x => .ok x
    | none => .error .tooLarge
  | .json (.float x) => .ok x
  | .json (.str s) => match Text.Numeral.double? s with
    | some x => .ok x
    | none => .error (.notNumber (.json (.str s)))
  | f => .error (.notNumber f)

/-- The integer that a text of digits denotes. -/
def integerOfDigits (text : String) : Except Failure Int :=
  let cs := text.toList
  let decimals := cs.takeWhile Text.isDecimal
  if integerDigits < decimals.length then .error (.oversizedInteger decimals.length)
  else if decimals.length < cs.length then .error (.digits text)
  else .ok (cs.foldl (fun n c => 10 * n + (Text.decimalValue? c).getD 0) 0 : Nat)

/-- The instant that many seconds after the start of 1970. -/
def instantOfEpoch (n : Int) : Except Failure Int :=
  match Timestamp.instantOfSeconds? n with
  | some i => .ok i
  | none => .error (.epochRange (.json (.int n)))

/-- Every `Z` as an offset of zero. -/
def spellZulu (s : String) : String :=
  String.ofList (s.toList.flatMap fun c => if c = 'Z' then "+00:00".toList else [c])

/-- The instant that a text denotes: seconds since 1970 when it is all digits, else ISO form. -/
def instantOfText (f : Fact) (text : String) : Except Failure Int :=
  if !text.isEmpty && text.toList.all Text.isAnyDigit then do
    instantOfEpoch (← integerOfDigits text)
  else match Timestamp.ofIso (spellZulu text) with
    | .ok t => .ok t.instant
    | .error _ => .error (.notDate f)

/-- The instant that a value denotes; numbers are seconds since 1970. -/
def instantOf : Fact → Except Failure Int
  | .time t => .ok t.instant
  | .json (.bool b) => instantOfEpoch (if b then 1 else 0)
  | .json (.int n) => instantOfEpoch n
  | .json (.float x) => match Timestamp.instantOfDouble? x with
    | some i => .ok i
    | none => .error (.epochRange (.json (.float x)))
  | f => instantOfText f f.shown

/-- Whether an address lies in a network. -/
def inNetwork (address network : String) : Except Failure Bool :=
  match Address.ofText? address with
  | none => .error (.address address)
  | some a => match Network.ofText? network with
    | none => .error (.network network)
    | some n => .ok (n.has a)

/-! ## Comparisons -/

inductive Relation where
  | eq | lt | le | gt | ge
deriving DecidableEq

/-- Whether two numbers are so related; a NaN is related to nothing. -/
def Relation.numbers : Relation → Double → Double → Bool
  | eq, a, b => a.numEq b
  | lt, a, b => a.numLt b
  | le, a, b => a.numLe b
  | gt, a, b => b.numLt a
  | ge, a, b => b.numLe a

def Relation.instants : Relation → Int → Int → Bool
  | eq, a, b => a = b
  | lt, a, b => a < b
  | le, a, b => a ≤ b
  | gt, a, b => b < a
  | ge, a, b => b ≤ a

inductive Comparison where
  | text
  | textIgnoringCase
  /-- The expected value is a pattern. -/
  | like
  | bool
  | address
  | number (r : Relation)
  | date (r : Relation)
deriving DecidableEq

/-- Whether an actual value stands in the comparison to an expected one. -/
def Comparison.holds (c : Comparison) (actual expected : Fact) : Except Failure Bool :=
  match c with
  | text => .ok (actual.shown = expected.shown)
  | textIgnoringCase => .ok (Text.lower actual.shown = Text.lower expected.shown)
  | like => .ok (Glob.fits expected.shown actual.shown)
  | bool => do
    let a ← boolOf actual
    let e ← boolOf expected
    return a = e
  | address => inNetwork actual.shown expected.shown
  | number r => do
    let a ← numberOf actual
    let e ← numberOf expected
    return r.numbers a e
  | date r => do
    let a ← instantOf actual
    let e ← instantOf expected
    return r.instants a e

/-- The operators: their name, what they compare, and whether they are negated. -/
def operators : List (String × Comparison × Bool) := [
  ("StringEquals", .text, false),
  ("StringNotEquals", .text, true),
  ("StringEqualsIgnoreCase", .textIgnoringCase, false),
  ("StringNotEqualsIgnoreCase", .textIgnoringCase, true),
  ("StringLike", .like, false),
  ("StringNotLike", .like, true),
  ("ArnEquals", .like, false),
  ("ArnLike", .like, false),
  ("ArnNotEquals", .like, true),
  ("ArnNotLike", .like, true),
  ("Bool", .bool, false),
  ("IpAddress", .address, false),
  ("NotIpAddress", .address, true),
  ("NumericEquals", .number .eq, false),
  ("NumericNotEquals", .number .eq, true),
  ("NumericLessThan", .number .lt, false),
  ("NumericLessThanEquals", .number .le, false),
  ("NumericGreaterThan", .number .gt, false),
  ("NumericGreaterThanEquals", .number .ge, false),
  ("DateEquals", .date .eq, false),
  ("DateNotEquals", .date .eq, true),
  ("DateLessThan", .date .lt, false),
  ("DateLessThanEquals", .date .le, false),
  ("DateGreaterThan", .date .gt, false),
  ("DateGreaterThanEquals", .date .ge, false)]

end CloudAccess.Condition
