import CloudAccess.Graph.Policy
import CloudAccess.Inventory.Snapshot

/-!
# From snapshots to graphs

`Graph.ofSnapshot` turns a whole snapshot into a graph: the organization policies that govern the
account, then the principals with their own and their trust policies, then the resources with
theirs.  It is all or nothing: the first record that cannot be used is the error.
-/

namespace CloudAccess.Graph

/-- The organization policies that govern a snapshot's account: those of its attachments, or
the ones that were picked beforehand when there are no attachments. -/
def guardrailsOf (s : Snapshot) : Run Fault (List Document) :=
  if s.attachments.isEmpty then pure s.guardrails
  else do
    let kept ← Attachment.governing s.account s.attachments s.hierarchy
    Traced.note (.attachmentsKept kept.length s.attachments.length s.account)
    return kept

/-- Adds the policies attached to a principal, and counts the edges. -/
def addIdentityPolicies (g : Graph) (owner : Identifier) (ds : List Document) : Graph × Nat :=
  ds.foldl (fun (g, n) d =>
    let (g, m) := g.addIdentityPolicy owner d
    (g, n + m)) (g, 0)

/-- Adds the trust policy of a principal, if it is a role that has one. -/
def addTrustOf (g : Graph) (role : Identifier) (p : Principal) : Graph :=
  match p.kind, p.trust with
  | .role, some d => (g.addTrustPolicy role d).1
  | _, _ => g

/-- Adds a principal with its policies. -/
def addPrincipal (g : Graph) (p : Principal) : Run SnapshotError Graph := do
  let malformed (f : Fault) : SnapshotError := .malformed (.policies p.arn f)
  let id ← Traced.ofExcept ((Identifier.ofJson p.arn).mapError malformed)
  let g ← Traced.ofExcept ((g.insertPrincipal p).mapError malformed)
  let (g, edges) := g.addIdentityPolicies id p.policies
  Traced.note (.principalCompiled edges p.arn)
  return g.addTrustOf id p

/-- Adds a resource with its policy. -/
def addResource (g : Graph) (r : Resource) : Run SnapshotError Graph := do
  let malformed (f : Fault) : SnapshotError := .malformed (.resourcePolicy r.arn f)
  let g ← Traced.ofExcept ((g.insertResource r).mapError malformed)
  match r.policy with
  | none => return g
  | some d =>
    let (g, run) := g.addResourcePolicy r.arn d
    let edges ← run.mapError malformed
    Traced.note (.resourceCompiled edges r.arn)
    return g

/-- The graph of a snapshot. -/
def ofSnapshot (s : Snapshot) : Run SnapshotError Graph := do
  let guardrails ← (guardrailsOf s).mapError .fault
  let g ← s.principals.foldlM addPrincipal { empty with guardrails }
  let g ← s.resources.foldlM addResource g
  Traced.note (.graphBuilt g.sizes)
  return g

/-- The graph of the record of a snapshot. -/
def ofJson (record : Json) : Run SnapshotError Graph := do
  match record with
  | .obj _ => ofSnapshot (← Traced.ofExcept (Snapshot.decode record))
  | v => .fail (.malformed (.notObject v.kind))

end CloudAccess.Graph
