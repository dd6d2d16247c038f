import CloudAccess.Condition.Comparison

/-!
# Condition blocks

A block maps operators to clauses, and a clause maps a key to the values expected of that fact.
A block holds when all its clauses do; the first clause that is false or cannot be decided
settles it.

An operator may be qualified (`ForAnyValue:`, `ForAllValues:`) and may end in `IfExists`.  When
the fact is missing, `ForAllValues` holds, `IfExists` holds, and otherwise only a negated
operator without a qualifier does.
-/

namespace CloudAccess.Condition

inductive Qualifier where
  | anyValue | allValues
deriving DecidableEq

/-- The parts of an operator as written. -/
structure Operator where
  qualifier : Option Qualifier
  base : String
  ifExists : Bool
deriving DecidableEq

/-- Takes an ending `IfExists` off an operator. -/
def splitIfExists (cs : List Char) : List Char × Bool :=
  let suffix := "IfExists".toList
  if suffix.isSuffixOf cs then (cs.take (cs.length - suffix.length), true) else (cs, false)

/-- Reads an operator. -/
def Operator.ofText (s : String) : Except Failure Operator :=
  let build (q : Option Qualifier) (cs : List Char) : Operator :=
    let (base, ifExists) := splitIfExists cs
    ⟨q, String.ofList base, ifExists⟩
  match Text.cut? ':' s.toList with
  | none => .ok (build none s.toList)
  | some (name, rest) =>
    if name = "ForAnyValue".toList then .ok (build (some .anyValue) rest)
    else if name = "ForAllValues".toList then .ok (build (some .allValues) rest)
    else .error (.qualifier (String.ofList name))

/-! ## Clauses -/

/-- Whether a test holds of some item, as far as it has to be tried. -/
def anyHolds {α : Type} (test : α → Except Failure Bool) : List α → Except Failure Bool
  | [] => .ok false
  | a :: rest => do
    if ← test a then return true
    anyHolds test rest

/-- Whether some actual value stands in the comparison to some expected one. -/
def anyPair (c : Comparison) (expected actual : List Fact) : Except Failure Bool :=
  anyHolds (fun a => anyHolds (c.holds a) expected) actual

/-- Whether a clause holds of a fact that is present. -/
def presentHolds (qualifier : Option Qualifier) (c : Comparison) (negated : Bool)
    (expected actual : List Fact) : Except Failure Bool :=
  match qualifier with
  | some .allValues => do
    let hits ← actual.mapM fun a => anyHolds (c.holds a) expected
    return if negated then !hits.any id else hits.all id
  | _ => do
    let hit ← anyPair c expected actual
    return hit != negated

/-- Whether a clause holds when its fact is missing. -/
def absentHolds (op : Operator) (negated : Bool) : Bool :=
  match op.qualifier with
  | some .allValues => true
  | some .anyValue => op.ifExists
  | none => op.ifExists || negated

/-- Whether one key of one operator has the expected values. -/
def clauseHolds (operator key : String) (expected : Json) (c : Context) : Except Failure Bool := do
  let op ← Operator.ofText operator
  let values := (Fact.json expected).values
  let fact := c.fact? key
  if op.base = "Null" then
    match values with
    | [] => .error (.noValue key)
    | v :: _ => do
      let missing ← boolOf v
      return fact.isNone = missing
  else
    match operators.lookup op.base with
    | none => .error (.operator operator)
    | some (comparison, negated) =>
      match fact with
      | none => return absentHolds op negated
      | some f => presentHolds op.qualifier comparison negated values f.values

/-! ## Blocks -/

/-- Whether all keys of an operator have their expected values. -/
def clausesHold (operator : String) (c : Context) : Json.Members → Except Failure Bool
  | [] => .ok true
  | (key, expected) :: rest => do
    if ← clauseHolds operator key expected c then clausesHold operator c rest else return false

/-- Whether all operators of a block hold. -/
def operatorsHold (c : Context) : Json.Members → Except Failure Bool
  | [] => .ok true
  | (operator, .obj clauses) :: rest => do
    if ← clausesHold operator c clauses then operatorsHold c rest else return false
  | (operator, _) :: _ => .error (.clauses operator)

/-- Whether a condition block holds for a request; a blank one does. -/
def holds (block : Json) (c : Context) : Except Failure Bool :=
  if block.isBlank then .ok true
  else match block with
    | .obj ms => operatorsHold c ms
    | _ => .error .block

/-! ## Evaluators -/

/-- What decides the conditions of a graph: an answer, or the reason why there is none. -/
abbrev Evaluator := Json → Context → Except String Bool

/-- The evaluator for the operators above. -/
def standard : Evaluator := fun block c => (holds block c).mapError Failure.reason

end CloudAccess.Condition
