import CloudAccess.Number.Double

/-!
# JSON values

Members of an object keep their order.  Integers are unbounded and distinct from floating-point
numbers, although `Json.same` and `Json.key?` compare numbers by what they denote.

* `Json.isBlank`: the values that stand for "nothing given".
* `Json.same`: equality by content, where member order does not matter.
* `Json.equals`: the same for two values compared on their own, where a NaN equals nothing.
* `Json.key?`: what identifies a value used as a key; lists and objects identify nothing.
-/

namespace CloudAccess

inductive Json where
  | null
  | bool (b : Bool)
  | int (n : Int)
  | float (x : Double)
  | str (s : String)
  | arr (items : List Json)
  | obj (members : List (String × Json))
deriving Inhabited

namespace Json

/-! ## Kinds -/

/-- The kinds of values that messages tell apart. -/
inductive Kind where
  | null | bool | int | float | str | arr | obj
deriving DecidableEq

def Kind.name : Kind → String
  | null => "NoneType"
  | bool => "bool"
  | int => "int"
  | float => "float"
  | str => "str"
  | arr => "list"
  | obj => "dict"

def kind : Json → Kind
  | null => .null
  | bool _ => .bool
  | int _ => .int
  | float _ => .float
  | str _ => .str
  | arr _ => .arr
  | obj _ => .obj

/-- Null, false, zero and anything empty: the values that stand for "nothing given". -/
def isBlank : Json → Bool
  | null => true
  | bool b => !b
  | int n => n = 0
  | float x => x.isZero
  | str s => s.isEmpty
  | arr items => items.isEmpty
  | obj members => members.isEmpty

/-- The value, or a replacement for a blank one. -/
def orIfBlank (v replacement : Json) : Json := if v.isBlank then replacement else v

/-! ## Members -/

/-- The members of an object. -/
abbrev Members := List (String × Json)

/-- The value of a named member. -/
def member? (name : String) (ms : Members) : Option Json := ms.lookup name

/-- The value of a named member, null when there is none. -/
def member (name : String) (ms : Members) : Json := (member? name ms).getD .null

/-- Sets a member; one that exists keeps its place. -/
def setMember (name : String) (v : Json) : Members → Members
  | [] => [(name, v)]
  | (n, w) :: rest => if n = name then (n, v) :: rest else (n, w) :: setMember name v rest

/-- A text as a value. -/
instance : Coe String Json := ⟨.str⟩

/-- The texts among the values of a list. -/
def textsOf (items : List Json) : List String :=
  items.filterMap fun | .str s => some s | _ => none

/-- A field that holds one text or a list of them; anything that is not a text is dropped. -/
def texts : Json → List String
  | .str s => [s]
  | .arr items => textsOf items
  | _ => []

/-! ## Keys -/

/-- What identifies a value used as a key: a truth value counts as the number zero or one, and
a number with an integral value as that integer. -/
inductive Key where
  | null
  | int (n : Int)
  | float (x : Double)
  | str (s : String)
deriving DecidableEq

def key? : Json → Option Key
  | .null => some .null
  | .bool b => some (.int (if b then 1 else 0))
  | .int n => some (.int n)
  | .float x => some (match x.toInt? with | some n => .int n | none => .float x)
  | .str s => some (.str s)
  | .arr _ => none
  | .obj _ => none

/-! ## Equality by content -/

mutual

/-- Whether two values have the same content: numbers by value, objects as maps. -/
def same : Json → Json → Bool
  | .arr xs, w => match w with
    | .arr ys => sameItems xs ys
    | _ => false
  | .obj ms, w => match w with
    | .obj ns => ms.length = ns.length && sameMembers ms ns
    | _ => false
  | .null, w => w.key? = some .null
  | .bool b, w => w.key? = (Json.bool b).key?
  | .int n, w => w.key? = (Json.int n).key?
  | .float x, w => w.key? = (Json.float x).key?
  | .str s, w => w.key? = some (.str s)

def sameItems : List Json → List Json → Bool
  | [], ys => ys.isEmpty
  | x :: xs, ys => match ys with
    | [] => false
    | y :: ys => same x y && sameItems xs ys

/-- Whether every member of the first object is in the second with the same content. -/
def sameMembers : List (String × Json) → List (String × Json) → Bool
  | [], _ => true
  | (n, v) :: ms, ns => match ns.lookup n with
    | none => false
    | some w => same v w && sameMembers ms ns

end

def isNaN : Json → Bool
  | float x => x.isNaN
  | _ => false

/-- Whether two values are equal when compared on their own.  A NaN equals nothing, although a
list that holds one has the same content as another such list. -/
def equals (v w : Json) : Bool := !v.isNaN && v.same w

end Json
end CloudAccess
