import CloudAccess.Json.Display
import CloudAccess.Json.Reader

/-!
# Faults in loosely typed records

Snapshots are JSON of uncertain shape.  A `Fault` is the cause for which a value cannot be used
as what a record needs; `Fault.message` words it.
-/

namespace CloudAccess

/-- Why a value cannot be used. -/
inductive Fault where
  /-- An object has no such member. -/
  | missing (name : String)
  /-- Members were looked for in something that is not an object. -/
  | notKeyed (kind : Json.Kind)
  /-- A value of this kind has no such operation. -/
  | noOperation (kind : Json.Kind) (operation : String)
  | notIterable (kind : Json.Kind)
  /-- A list or an object was used as a key. -/
  | notKey (kind : Json.Kind)
  /-- Something other than a text was to be extended by a text. -/
  | notExtensible (kind : Json.Kind)
  /-- Something other than a text was used as a pattern. -/
  | notPattern (kind : Json.Kind)
  /-- Something other than a text was matched against a pattern. -/
  | notMatchable (kind : Json.Kind)
  /-- Values of different kinds were to be sorted. -/
  | notComparable (left right : Json.Kind)
  | statementShape (kind : Json.Kind)
  | documentShape (kind : Json.Kind)
  | statementList
  | policyText (error : String)
  | policyTopLevel
  | oversizedInteger (digits : Nat)
  | principalType (text : String)
  | targetType (text : String)
  | noBaseSnapshot
  | noGraph
  /-- A role that is null was to be related to those who may assume it. -/
  | nullRole
  /-- A path has a NUL in it. -/
  | nulInPath
deriving DecidableEq

namespace Fault

def message : Fault → String
  | missing name => quotedText name
  | notKeyed .str => "string indices must be integers, not 'str'"
  | notKeyed .arr => "list indices must be integers or slices, not str"
  | notKeyed kind => s!"'{kind.name}' object is not subscriptable"
  | noOperation kind operation => s!"'{kind.name}' object has no attribute '{operation}'"
  | notIterable kind => s!"'{kind.name}' object is not iterable"
  | notKey kind => s!"unhashable type: '{kind.name}'"
  | notExtensible .arr => "can only concatenate list (not \"str\") to list"
  | notExtensible kind => s!"unsupported operand type(s) for +: '{kind.name}' and 'str'"
  | notPattern kind => s!"object of type '{kind.name}' has no len()"
  | notMatchable kind => s!"expected string or bytes-like object, got '{kind.name}'"
  | notComparable left right =>
    s!"'<' not supported between instances of '{left.name}' and '{right.name}'"
  | statementShape kind => s!"policy statement must be an object, got {kind.name}"
  | documentShape kind => s!"policy document must be an object, got {kind.name}"
  | statementList => "policy document Statement must be an object or a list"
  | policyText error => s!"failed to parse policy document: {error}"
  | policyTopLevel => "failed to parse policy document: top level is not an object"
  | oversizedInteger digits => Json.oversizedMessage digits
  | principalType text => s!"{quotedText text} is not a valid PrincipalType"
  | targetType text => s!"{quotedText text} is not a valid SCPTargetType"
  | noBaseSnapshot => "base snapshot cannot be None"
  | noGraph => "graphs cannot be None"
  | nullRole => "None cannot be a node"
  | nulInPath => "embedded null byte"

/-- The kinds of faults: a missing member, a value of the wrong type, a value that is not
allowed, an operation that a value lacks. -/
inductive Category where
  | key | type | value | attribute
deriving DecidableEq

/-- What kind of fault it is. -/
def category : Fault → Category
  | missing _ => .key
  | noOperation .. => .attribute
  | policyText _ | policyTopLevel | oversizedInteger _ | principalType _ | targetType _
  | noBaseSnapshot | noGraph | nullRole | nulInPath => .value
  | _ => .type

end Fault

/-! ## Members and items of loose values -/

namespace Json

/-- The members of a record that is read field by field. -/
def membersOf : Json → Except Fault Members
  | .obj ms => .ok ms
  | v => .error (.noOperation v.kind "get")

/-- A member that a record must have. -/
def required (name : String) : Json → Except Fault Json
  | .obj ms => match member? name ms with
    | some v => .ok v
    | none => .error (.missing name)
  | v => .error (.notKeyed v.kind)

/-- The items of a value taken as a list: those of a list, the characters of a text, the names
of an object's members. -/
def itemsOf : Json → Except Fault (List Json)
  | .arr items => .ok items
  | .str s => .ok (s.toList.map fun c => .str (String.singleton c))
  | .obj ms => .ok (ms.map fun (n, _) => .str n)
  | v => .error (.notIterable v.kind)

/-- The items of a member that may be missing or blank. -/
def optionalItems (v : Json) : Except Fault (List Json) :=
  if v.isBlank then .ok [] else v.itemsOf

/-- What identifies a value used as a key. -/
def keyOf (v : Json) : Except Fault Key :=
  match v.key? with
  | some k => .ok k
  | none => .error (.notKey v.kind)

end Json
end CloudAccess
