import CloudAccess.Inventory.Snapshot
import CloudAccess.Report

/-!
# Before and after

* `AccessDiff.between`: who gained, lost and kept a permission between two graphs.
* `Graph.issues` and `Snapshot.issues`: what is worth a second look in a graph, and in a snapshot
  with its graph.
-/

namespace CloudAccess

open Condition (Evaluator)

/-! ## Differences -/

/-- Who gained, lost and kept a permission, each in ascending order. -/
structure AccessDiff where
  granted : List String
  revoked : List String
  unchanged : List String
deriving DecidableEq

namespace AccessDiff

def hasChanges (d : AccessDiff) : Bool := !d.granted.isEmpty || !d.revoked.isEmpty

def toJson (d : AccessDiff) : Json :=
  .obj [("granted", .arr (d.granted.map .str)), ("revoked", .arr (d.revoked.map .str)),
    ("unchanged", .arr (d.unchanged.map .str))]

/-- Texts in ascending order. -/
def ascending (ids : List String) : List String := ids.mergeSort fun a b => a ≤ b

/-- The difference between those who held a permission and those who hold it now. -/
def ofHolders (before after : List String) : AccessDiff where
  granted := ascending (after.filter fun id => !before.contains id)
  revoked := ascending (before.filter fun id => !after.contains id)
  unchanged := ascending (before.filter after.contains)

/-- Compares who is permitted an action on a resource in two graphs. -/
def between (ev : Evaluator) (c : Context) (resource : Json) (action : String)
    (before after : Graph) : Run Fault AccessDiff := do
  let holdersBefore ← before.holders ev c resource action
  let holdersAfter ← after.holders ev c resource action
  return ofHolders (Json.textsOf (holdersBefore.map Principal.arn))
    (Json.textsOf (holdersAfter.map Principal.arn))

end AccessDiff

/-! ## Issues -/

inductive IssueKind where
  | fullAdmin | publicAccess | noPolicies
deriving DecidableEq

namespace IssueKind

def name : IssueKind → String
  | fullAdmin => "full_admin"
  | publicAccess => "public_access"
  | noPolicies => "no_policies"

def isWarning : IssueKind → Bool
  | noPolicies => false
  | _ => true

def message (count : Nat) : IssueKind → String
  | fullAdmin => s!"{count} principal(s) have full admin access (* on *)"
  | publicAccess => s!"{count} resource(s) allow public access"
  | noPolicies => s!"{count} principal(s) have no policies (potentially unused)"

end IssueKind

/-- An issue with the principals or resources that it is about. -/
structure Issue where
  kind : IssueKind
  identifiers : List Json

namespace Issue

def message (i : Issue) : String := i.kind.message i.identifiers.length

def toJson (i : Issue) : Json :=
  let severity := if i.kind.isWarning then "warning" else "info"
  .obj [("type", .str i.kind.name), ("severity", .str severity), ("message", .str i.message),
    ("identifiers", .arr i.identifiers)]

/-- An issue of some kind, if there is anything that it is about. -/
def found (kind : IssueKind) (identifiers : List Json) : List Issue :=
  if identifiers.isEmpty then [] else [⟨kind, identifiers⟩]

end Issue

/-- Whether nothing gives a principal access to anything of its own. -/
def Principal.isUnused (p : Principal) : Bool :=
  p.policies.isEmpty && p.trust.isNone && p.kind ≠ .anyone

/-- The issues of a graph: principals permitted everything, and resources open to the public. -/
def Graph.issues (g : Graph) (ev : Evaluator) : Run Fault (List Issue) := do
  let holders ← g.holders ev .empty "*" "*"
  let admins := holders.filter fun p => p.kind ≠ .anyone
  let exposed ← Traced.ofExcept g.publicResources
  return Issue.found .fullAdmin (admins.map Principal.arn) ++
    Issue.found .publicAccess (exposed.map Resource.arn)

/-- The issues of a snapshot, given its graph: those of the graph, and principals without
policies. -/
def Snapshot.issues (s : Snapshot) (ev : Evaluator) (g : Graph) : Run Fault (List Issue) := do
  let found ← g.issues ev
  let unused := s.principals.filter Principal.isUnused
  return found ++ Issue.found .noPolicies (unused.map Principal.arn)

end CloudAccess
