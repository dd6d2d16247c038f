import CloudAccess.Policy.Document
import CloudAccess.Text.Case

/-!
# Principals

An identity that can be granted or denied access.  Identifiers, names and account numbers are
kept as the record gives them, whatever they are.
-/

namespace CloudAccess

inductive PrincipalKind where
  | user | role | group | service | anyone
deriving DecidableEq

namespace PrincipalKind

def name : PrincipalKind → String
  | user => "user"
  | role => "role"
  | group => "group"
  | service => "service"
  | anyone => "public"

def all : List PrincipalKind := [user, role, group, service, anyone]

/-- Reads a kind in any case. -/
def ofJson (v : Json) : Except Fault PrincipalKind :=
  let text := Text.lower v.shown
  match all.find? (·.name = text) with
  | some k => .ok k
  | none => .error (.principalType text)

end PrincipalKind

structure Principal where
  arn : Json
  kind : PrincipalKind
  name : Json
  account : Json
  policies : List Document
  trust : Option Document
  boundary : Option Document
  /-- The groups of a user. -/
  groups : List Json

namespace Principal

def ofJson (record : Json) : Except Fault Principal := do
  let arn ← Json.required "ARN" record
  let ms ← record.membersOf
  let kind ← PrincipalKind.ofJson ((Json.member? "Type" ms).getD "user")
  let documents ← (Json.member "Policies" ms).optionalItems
  let policies ← documents.mapM Document.ofJson
  let trust ← Document.ofJson? (Json.member "TrustPolicy" ms)
  let boundary ← Document.ofJson? (Json.member "PermissionsBoundary" ms)
  let groups ← (Json.member "GroupMemberships" ms).optionalItems
  return {
    arn, kind, policies, trust, boundary, groups
    name := (Json.member "Name" ms).orIfBlank ""
    account := (Json.member "AccountID" ms).orIfBlank "" }

def toJson (p : Principal) : Json :=
  .obj [
    ("ARN", p.arn),
    ("Type", .str p.kind.name),
    ("Name", p.name),
    ("AccountID", p.account),
    ("Policies", .arr (p.policies.map Document.toJson)),
    ("TrustPolicy", Document.toJson? p.trust),
    ("PermissionsBoundary", Document.toJson? p.boundary),
    ("GroupMemberships", .arr p.groups)]

/-- The principal that stands for everyone. -/
def everyone : Principal where
  arn := .str Arn.anyone
  kind := .anyone
  name := "Public (Anonymous)"
  account := ""
  policies := []
  trust := none
  boundary := none
  groups := []

/-- What a principal is called: its name, or its identifier when it has none. -/
def title (p : Principal) : String := (p.name.orIfBlank p.arn).shown

end Principal
end CloudAccess
