import CloudAccess.Policy.Document
import CloudAccess.Run
import CloudAccess.Text.Case

/-!
# Organization policies

A service control policy is attached to the root of an organization, to units of it or to
accounts.  `Attachment.governing` picks the policies that govern one account.
-/

namespace CloudAccess

inductive TargetKind where
  | account | unit | root
deriving DecidableEq

namespace TargetKind

def name : TargetKind → String
  | account => "ACCOUNT"
  | unit => "ORGANIZATIONAL_UNIT"
  | root => "ROOT"

/-- Reads a kind in any case, with hyphens or underscores. -/
def ofJson (v : Json) : Except Fault TargetKind :=
  let text := String.ofList ((Text.upper v.shown).toList.map fun c => if c = '-' then '_' else c)
  match [account, unit, root].find? (·.name = text) with
  | some k => .ok k
  | none => .error (.targetType text)

end TargetKind

/-- Something that a policy is attached to. -/
structure Target where
  kind : TargetKind
  id : Json
  arn : Json
  name : Json

namespace Target

def ofJson (record : Json) : Except Fault Target := do
  let type ← Json.required "Type" record
  let kind ← TargetKind.ofJson type
  let ms ← record.membersOf
  return {
    kind
    id := (Json.member "ID" ms).orIfBlank ""
    arn := (Json.member "Arn" ms).orIfBlank ""
    name := (Json.member "Name" ms).orIfBlank "" }

def toJson (t : Target) : Json :=
  .obj <|
    [("Type", .str t.kind.name), ("ID", t.id)] ++
    (if t.arn.isBlank then [] else [("Arn", t.arn)]) ++
    (if t.name.isBlank then [] else [("Name", t.name)])

end Target

/-- A policy with all it is attached to. -/
structure Attachment where
  policy : Document
  targets : List Target

namespace Attachment

def ofJson (record : Json) : Except Fault Attachment := do
  let ms ← record.membersOf
  let policy ← Document.ofJson ((Json.member "Policy" ms).orIfBlank (.obj []))
  let records ← (Json.member "Targets" ms).optionalItems
  let targets ← records.mapM Target.ofJson
  return { policy, targets }

def toJson (a : Attachment) : Json :=
  .obj [("Policy", a.policy.toJson), ("Targets", .arr (a.targets.map Target.toJson))]

end Attachment

/-- The units that contain an account, parent first. -/
structure Hierarchy where
  account : Json
  units : List Json

namespace Hierarchy

def ofJson (record : Json) : Except Fault Hierarchy := do
  let ms ← record.membersOf
  let units ← (Json.member "ParentOUs" ms).optionalItems
  return { account := (Json.member "AccountID" ms).orIfBlank "", units }

def toJson (h : Hierarchy) : Json := .obj [("AccountID", h.account), ("ParentOUs", .arr h.units)]

/-- What identifies the units. -/
def keys (h : Hierarchy) : Except Fault (List Json.Key) := h.units.mapM Json.keyOf

end Hierarchy

/-! ## Which policies govern an account -/

/-- Whether a target covers an account whose units are given; without knowledge of them every
unit counts. -/
def Target.covers (account : Json) (units : Option (List Json.Key)) (t : Target) :
    Except Fault Bool :=
  match t.kind with
  | .root => .ok true
  | .account => .ok (t.id.equals account)
  | .unit =>
    match units with
    | none => .ok true
    | some keys => do return keys.contains (← t.id.keyOf)

/-- Whether some target covers the account; those after the first that does are not looked at. -/
def Target.anyCovers (account : Json) (units : Option (List Json.Key)) :
    List Target → Except Fault Bool
  | [] => .ok false
  | t :: ts => do
    if ← t.covers account units then return true
    Target.anyCovers account units ts

namespace Attachment

/-- The policies of the attachments that govern the account, in their order. -/
def governingFrom (account : Json) (units : Option (List Json.Key)) :
    List Attachment → Run Fault (List Document)
  | [] => pure []
  | a :: rest => do
    let covered ← Traced.ofExcept (Target.anyCovers account units a.targets)
    if covered then
      let ds ← governingFrom account units rest
      return a.policy :: ds
    else
      Traced.note (.attachmentSkipped a.policy.id account)
      governingFrom account units rest

/-- The policies that govern an account: those attached to the root, to the account, or to a
unit that contains it.  Without a hierarchy all units count. -/
def governing (account : Json) (attachments : List Attachment) (hierarchy : Option Hierarchy) :
    Run Fault (List Document) :=
  match hierarchy with
  | none => governingFrom account none attachments
  | some h => do
    let keys ← Traced.ofExcept h.keys
    governingFrom account (some keys) attachments

end Attachment
end CloudAccess
