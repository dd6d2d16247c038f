import CloudAccess.OrderedMap
import CloudAccess.Policy.Document
import CloudAccess.Text.Case
import CloudAccess.Time.Timestamp

/-!
# Requests

A `Context` holds the facts about a request that conditions ask for.  `Context.facts` lists them
under their names in lower case; facts given by name come last and replace others.
-/

namespace CloudAccess

/-- The value of a fact: JSON, or a point in time. -/
inductive Fact where
  | json (v : Json)
  | time (t : Timestamp)

namespace Fact

/-- A fact as messages show it. -/
def shown : Fact → String
  | json v => v.shown
  | time t => t.shown

/-- A fact in the long form that error messages show. -/
def quoted : Fact → String
  | json v => v.quoted
  | time t => t.quoted

/-- The values that a fact gives: those of a list, or the one value. -/
def values : Fact → List Fact
  | json (.arr items) => items.map json
  | f => [f]

/-- Null is the same as no fact. -/
def isPresent : Fact → Bool
  | json .null => false
  | _ => true

end Fact

structure Context where
  sourceIp : Option String
  mfa : Bool
  organization : Option String
  principalOrganization : Option String
  principalArn : Option String
  /-- The policy of the session in which the request is made. -/
  session : Option Document
  time : Option Timestamp
  extra : List (String × Json)

namespace Context

/-- A request of which nothing is known. -/
def empty : Context where
  sourceIp := none
  mfa := false
  organization := none
  principalOrganization := none
  principalArn := none
  session := none
  time := none
  extra := []

instance : Inhabited Context := ⟨empty⟩

/-- A fact that is a text, unless it is missing or empty. -/
def textFact (name : String) : Option String → List (String × Fact)
  | none => []
  | some s => if s.isEmpty then [] else [(name, .json (.str s))]

/-- The facts that the request itself gives. -/
def ownFacts (c : Context) : List (String × Fact) :=
  [("aws:multifactorauthpresent", .json (.bool c.mfa))] ++
  textFact "aws:sourceip" c.sourceIp ++
  textFact "aws:resourceorgid" c.organization ++
  textFact "aws:principalorgid" c.principalOrganization ++
  textFact "aws:principalarn" c.principalArn ++
  (match c.time with
    | none => []
    | some t => [("aws:currenttime", .time t), ("aws:epochtime", .json (.int t.epochSeconds))])

/-- All facts, by their names in lower case. -/
def facts (c : Context) : OrderedMap String Fact :=
  .ofList (c.ownFacts ++ c.extra.map fun (name, v) => (Text.lower name, .json v))

/-- The value of a fact, if it is present. -/
def fact? (c : Context) (name : String) : Option Fact :=
  (c.facts.get? (Text.lower name)).filter Fact.isPresent

end Context

/-- What is asked: an action on a resource, under the facts of a context. -/
structure Request where
  action : String
  resource : Json
  context : Context

end CloudAccess
