import CloudAccess.Inventory.Principal
import CloudAccess.Inventory.Resource
import CloudAccess.Organization

/-!
# Snapshots

Everything collected for one account.  There are two readers: `Snapshot.ofJson` reads all parts
in one pass, `Snapshot.decode` reads principals and resources first and says which record is
malformed.  `Snapshot.toJson` writes a record that reads back as the same snapshot.
-/

namespace CloudAccess

structure Snapshot where
  principals : List Principal
  resources : List Resource
  /-- Organization policies that were picked for the account beforehand. -/
  guardrails : List Document
  attachments : List Attachment
  hierarchy : Option Hierarchy
  collectedAt : String
  account : Json
  regions : List Json

/-- Why no graph can be made of a snapshot. -/
inductive Malformation where
  | principal (identifier : Json) (fault : Fault)
  | resource (identifier : Json) (fault : Fault)
  | organization (fault : Fault)
  | policies (arn : Json) (fault : Fault)
  | resourcePolicy (arn : Json) (fault : Fault)
  | notObject (kind : Json.Kind)

namespace Malformation

/-- The identifier of the record that is malformed, null when it has none. -/
def identifier : Malformation → Json
  | principal id _ | resource id _ | policies id _ | resourcePolicy id _ => id
  | organization _ | notObject _ => .null

def message : Malformation → String
  | principal id f =>
    let name := (id.orIfBlank "<no ARN>").shown
    s!"malformed principal record {name}: {f.message}"
  | resource id f =>
    let name := (id.orIfBlank "<no ARN>").shown
    s!"malformed resource record {name}: {f.message}"
  | organization f => s!"malformed organization policy data: {f.message}"
  | policies arn f => s!"cannot compile policies of principal {arn.shown}: {f.message}"
  | resourcePolicy arn f => s!"cannot compile resource policy of {arn.shown}: {f.message}"
  | notObject kind => s!"snapshot must be a mapping, got {kind.name}"

end Malformation

/-- Why a snapshot cannot be used: a fault outside its records, or a malformed record. -/
inductive SnapshotError where
  | fault (fault : Fault)
  | malformed (cause : Malformation)

def SnapshotError.message : SnapshotError → String
  | fault f => f.message
  | malformed m => m.message

namespace Snapshot

/-- Reads the parts other than principals and resources. -/
def withRest (ms : Json.Members) (principals : List Principal) (resources : List Resource) :
    Except Fault Snapshot := do
  let policies ← (Json.member "SCPs" ms).optionalItems
  let guardrails ← policies.mapM Document.ofJson
  let records ← (Json.member "SCPAttachments" ms).optionalItems
  let attachments ← records.mapM Attachment.ofJson
  let organization := Json.member "OUHierarchy" ms
  let hierarchy ←
    if organization.isBlank then pure none else (Hierarchy.ofJson organization).map some
  let regions ← (Json.member "Regions" ms).optionalItems
  return {
    principals, resources, guardrails, attachments, hierarchy, regions
    collectedAt := ((Json.member "CollectedAt" ms).orIfBlank "").shown
    account := (Json.member "AccountID" ms).orIfBlank "" }

/-- Reads a snapshot in one pass. -/
def ofJson (record : Json) : Except Fault Snapshot := do
  let ms ← record.membersOf
  let people ← (Json.member "Principals" ms).optionalItems
  let principals ← people.mapM Principal.ofJson
  let things ← (Json.member "Resources" ms).optionalItems
  let resources ← things.mapM Resource.ofJson
  withRest ms principals resources

/-- The identifier that a record gives, null when it gives none. -/
def identifierOf : Json → Json
  | .obj ms => Json.member "ARN" ms
  | _ => .null

/-- Reads a principal or says which one is malformed. -/
def principalOf (record : Json) : Except SnapshotError Principal :=
  (Principal.ofJson record).mapError fun f => .malformed (.principal (identifierOf record) f)

/-- Reads a resource or says which one is malformed. -/
def resourceOf (record : Json) : Except SnapshotError Resource :=
  (Resource.ofJson record).mapError fun f => .malformed (.resource (identifierOf record) f)

/-- Reads a snapshot, naming the record that is malformed: principals first, then resources,
then the rest. -/
def decode (record : Json) : Except SnapshotError Snapshot := do
  let ms ← record.membersOf.mapError .fault
  let people ← (Json.member "Principals" ms).optionalItems.mapError .fault
  let principals ← people.mapM principalOf
  let things ← (Json.member "Resources" ms).optionalItems.mapError .fault
  let resources ← things.mapM resourceOf
  (withRest ms principals resources).mapError fun f => .malformed (.organization f)

def toJson (s : Snapshot) : Json :=
  .obj [
    ("Principals", .arr (s.principals.map Principal.toJson)),
    ("Resources", .arr (s.resources.map Resource.toJson)),
    ("SCPs", .arr (s.guardrails.map Document.toJson)),
    ("SCPAttachments", .arr (s.attachments.map Attachment.toJson)),
    ("OUHierarchy", match s.hierarchy with | none => .null | some h => h.toJson),
    ("CollectedAt", .str s.collectedAt),
    ("AccountID", s.account),
    ("Regions", .arr s.regions)]

end Snapshot
end CloudAccess
