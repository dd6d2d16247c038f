import CloudAccess.Decision

/-!
# Viewpoints and trust

Questions about a graph are asked from a `Viewpoint`, which fixes their context.  The trust between
principals and roles is read once, when a question first needs it, and kept: later changes of the
graph do not reach it.

* `TrustGraph.ofGraph`: who may step into which role of the graph.
* `Viewpoint.trustOn`: the trust seen from a viewpoint, kept or read now.
* `TrustGraph.rolesOf`: the roles that someone can step into under a context.
-/

namespace CloudAccess

open Condition (Evaluator)

/-- Pairs of a trustor and a role that it may assume. -/
structure TrustGraph where
  edges : List (String × Identifier)

namespace TrustGraph

/-- The trust in one principal, each pair once; only roles are trusted.  A role that is null
cannot be. -/
def edgesTo (g : Graph) (p : Principal) : Except Fault (List (String × Identifier)) :=
  match p.kind, Identifier.ofJson? p.arn with
  | .role, some id =>
    let trustors := (g.trustors id).eraseDups
    if id.key = .null && !trustors.isEmpty then .error .nullRole
    else .ok (trustors.map (·, id))
  | _, _ => .ok []

/-- The trust in the roles among a graph's principals. -/
def ofGraph (g : Graph) : Except Fault TrustGraph := do
  let edges ← g.principals.values.mapM (edgesTo g)
  return ⟨edges.flatten⟩

/-- The roles that trust someone by name. -/
def successors (t : TrustGraph) (trustor : String) : List Identifier :=
  t.edges.filterMap fun (id, role) => if id = trustor then some role else none

/-- The roles that someone is trusted with. -/
def roles (t : TrustGraph) : List Identifier := t.edges.map (·.2)

/-- All that trust or are trusted, in the order in which they are first met. -/
def members (t : TrustGraph) : List Identifier :=
  (t.edges.flatMap fun (trustor, role) => [.text trustor, role]).eraseDups

/-- The pairs, those of one trustor together. -/
def grouped (t : TrustGraph) : List (String × Identifier) :=
  t.members.flatMap fun m => t.edges.filter fun (trustor, _) => m == .text trustor

/-- Whether a pair comes before another: by its trustor, then by its role. -/
def precedes : String × Identifier → String × Identifier → Except Fault Bool
  | (a, r), (b, s) => if a ≠ b then .ok (a < b) else if r == s then .ok false else r.precedes s

/-- The pairs in ascending order. -/
def sorted (t : TrustGraph) : Except Fault (List (String × Identifier)) :=
  sortWith precedes t.grouped

end TrustGraph

/-- The context of questions, and the trust that was read for them. -/
structure Viewpoint where
  context : Context
  /-- The trust that was read, if it has been needed. -/
  kept : Option TrustGraph
deriving Inhabited

namespace Viewpoint

/-- A viewpoint from which nothing has been read yet. -/
def ofContext (c : Context) : Viewpoint := ⟨c, none⟩

/-- The same viewpoint under another context, with the trust that was read. -/
def withContext (v : Viewpoint) (c : Context) : Viewpoint := { v with context := c }

/-- The trust seen from a viewpoint. -/
def trustOn (v : Viewpoint) (g : Graph) : Except Fault TrustGraph :=
  match v.kept with
  | some t => .ok t
  | none => TrustGraph.ofGraph g

/-- The viewpoint once the trust is read; what cannot be read is not kept. -/
def reading (v : Viewpoint) (g : Graph) : Viewpoint :=
  match v.trustOn g with
  | .ok t => { v with kept := some t }
  | .error _ => v

end Viewpoint

/-! ## Stepping into roles -/

/-- The action of stepping into a role. -/
def assumeRole : String := "sts:AssumeRole"

namespace TrustGraph

/-- The roles that trust someone by name or trust everyone. -/
def openTo (t : TrustGraph) (id : String) : List Identifier :=
  t.successors id ++ t.successors Arn.anyone

/-- The roles that trust the account of someone other than its root. -/
def openToAccount (t : TrustGraph) (id : String) : List Identifier :=
  match Arn.account? id with
  | none => []
  | some account =>
    if Arn.isAccountRoot id then [] else t.successors (Arn.accountRoot account)

/-- The ones of some roles that a principal is itself permitted to assume. -/
def permitted (g : Graph) (ev : Evaluator) (c : Context) (id : String) :
    List Identifier → Run Fault (List Identifier)
  | [] => pure []
  | role :: rest => do
    let ok ← g.permits ev ⟨assumeRole, role.value, c⟩ (.str id)
    let others ← permitted g ev c id rest
    return if ok then role :: others else others

/-- The roles that someone can step into, in ascending order.  Trust by name and trust in
everyone suffice; trust in the account also needs the permission to assume the role. -/
def rolesOf (t : TrustGraph) (g : Graph) (ev : Evaluator) (c : Context) (id : String) :
    Run Fault (List Identifier) := do
  let direct := t.openTo id
  let indirect ← permitted g ev c id ((t.openToAccount id).filter fun r => !direct.contains r)
  let others := (direct ++ indirect).eraseDups.filter fun r => !(r == Identifier.text id)
  Traced.ofExcept (Identifier.sort (others.filter fun r => (g.principal? r).isSome))

end TrustGraph
end CloudAccess
