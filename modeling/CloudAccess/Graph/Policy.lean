import CloudAccess.Graph.Basic
import CloudAccess.Run

/-!
# From policies to edges

A policy becomes edges of a graph, one for each action and resource pattern of each statement.

* `Graph.addIdentityPolicy`: a policy attached to a principal grants to that principal.
* `Graph.addTrustPolicy`: a policy attached to a role says who may assume it; only what it allows
  counts.
* `Graph.addResourcePolicy`: a policy attached to a resource grants to those it names, but only on
  that resource and what lies under it.  Everyone is one principal, added when first needed.

## Confinement

A pattern in a policy of a resource is kept when it is the resource or starts below it, becomes
the resource and all below when it is broader, all below when it matches only that, and is
dropped otherwise; `confined` says so of one pattern.
-/

namespace CloudAccess

/-! ## Confinement -/

/-- All that lies under a resource. -/
def beneath (resource : String) : String := resource ++ "/*"

/-- What a pattern in the policy of a resource comes to. -/
def confined (resource pattern : String) : List String :=
  if pattern = resource || (resource ++ "/").toList.isPrefixOf pattern.toList then [pattern]
  else if resourceMatches pattern resource then [resource, beneath resource]
  else if resourceMatches pattern (beneath resource) then [beneath resource]
  else []

/-- The patterns of a statement, confined to the resource whose policy it belongs to; a
statement without patterns is about the resource itself. -/
def confine (resource : String) (patterns : List String) : List String :=
  if patterns.isEmpty then [resource] else (patterns.flatMap (confined resource)).eraseDups

/-- The patterns that confinement drops. -/
def droppedPatterns (resource : String) (patterns : List String) : List String :=
  patterns.filter fun p => (confined resource p).isEmpty

/-- Confines the patterns of a statement to a resource by whatever identifies it. -/
def confineTo (resource : Json) (patterns : List String) : Run Fault (List Json) :=
  match resource with
  | .str r =>
    ⟨.ok ((confine r patterns).map .str),
      (droppedPatterns r patterns).map fun p => .patternDropped p resource⟩
  | v => if patterns.isEmpty then pure [v] else .fail (.notExtensible v.kind)

/-! ## Statements -/

namespace Graph

/-- The edge that a statement makes for one resource pattern. -/
def edgeOf (s : Statement) (pattern : Json) : Edge where
  pattern := pattern
  conditions := s.condition
  label := s.sid

/-- Adds the edges of a statement to an owner, for given resource patterns. -/
def addStatement (g : Graph) (owner : Identifier) (s : Statement) (patterns : List Json) : Graph :=
  s.actions.foldl (fun g action =>
    patterns.foldl (fun g p => g.insertEdge owner action s.isDeny (edgeOf s p)) g) g

/-- How many edges a statement makes for each owner. -/
def edgeCount (s : Statement) (patterns : List Json) : Nat := s.actions.length * patterns.length

/-! ## Policies of principals -/

/-- Adds a policy attached to a principal, and counts the edges. -/
def addIdentityPolicy (g : Graph) (owner : Identifier) (d : Document) : Graph × Nat :=
  d.statements.foldl (fun (g, n) s =>
    let patterns := s.resources.map Json.str
    (g.addStatement owner s patterns, n + edgeCount s patterns)) (g, 0)

/-- Those whom a trust policy lets assume its role. -/
def trustorsOf (d : Document) : List String :=
  (d.statements.filter Statement.isAllow).flatMap Statement.grantees

/-- Adds the trust policy of a role, and counts the trustors. -/
def addTrustPolicy (g : Graph) (role : Identifier) (d : Document) : Graph × Nat :=
  let trustors := trustorsOf d
  (trustors.foldl (fun g t => g.insertTrust t role) g, trustors.length)

/-! ## Policies of resources -/

/-- Those to whom a statement grants, each once; whoever stands for everyone is the one public
identifier. -/
def ownersOf (s : Statement) : List String :=
  (s.grantees.map fun id => if Arn.isAnyone id then Arn.anyone else id).eraseDups

/-- Adds the principal that stands for everyone, if it is needed and not there. -/
def ensureEveryone (g : Graph) (s : Statement) : Graph × List Event :=
  if s.grantees.any Arn.isAnyone && (g.principal? Arn.anyone).isNone then
    ({ g with principals := g.principals.insert Arn.anyone Principal.everyone }, [.everyoneAdded])
  else (g, [])

/-- Adds the edges of a statement in the policy of a resource to all that it grants to. -/
def grant (g : Graph) (s : Statement) (patterns : List Json) : Graph :=
  (ownersOf s).foldl (fun g owner => g.addStatement (.text owner) s patterns) g

/-- Adds the statements of a resource policy.  What was added before a fault stays. -/
def addResourceStatements (resource : Json) : List Statement → Graph → Graph × Run Fault Nat
  | [], g => (g, pure 0)
  | s :: rest, g =>
    let ⟨outcome, dropped⟩ := confineTo resource s.resources
    match outcome with
    | .error f => (g, ⟨.error f, dropped⟩)
    | .ok patterns =>
      let (g, added) := g.ensureEveryone s
      let (after, ⟨counted, trace⟩) := addResourceStatements resource rest (g.grant s patterns)
      let here := (ownersOf s).length * edgeCount s patterns
      (after, ⟨counted.map (here + ·), dropped ++ added ++ trace⟩)

/-- Adds a policy attached to a resource, and counts the edges. -/
def addResourcePolicy (g : Graph) (resource : Json) (d : Document) : Graph × Run Fault Nat :=
  addResourceStatements resource d.statements g

end Graph
end CloudAccess
