import CloudAccess.Glob
import CloudAccess.Identifier
import CloudAccess.Inventory.Principal
import CloudAccess.Inventory.Resource
import CloudAccess.Log
import CloudAccess.OrderedMap

/-!
# Access graphs

An access graph holds principals and resources, what policies allow and deny each owner as
edges, who trusts whom with a role, and the organization policies that guard the account.  It
only ever grows.

* `Graph.insertPrincipal`, `Graph.insertResource`, `Graph.insertEdge`, `Graph.insertTrust` and
  `Graph.insertGuardrail` record facts.
* The readers below them answer from what was recorded; `Decision` decides requests.

An edge covers the resources that its pattern matches.  The owner of an edge or of a trust need
not be a principal of the graph.
-/

namespace CloudAccess

/-- One allow or deny fact of an owner and an action pattern. -/
structure Edge where
  /-- The resources it covers; a text, unless it stands for a resource whose name is none. -/
  pattern : Json
  conditions : Json
  /-- The label of the statement it comes from. -/
  label : String

/-- Whether a pattern covers a resource.  What is equal is covered; beyond that both have to be
texts. -/
def covers : Json → Json → Except Fault Bool
  | .str p, .str t => .ok (resourceMatches p t)
  | .str p, t => if p = "*" then .ok true else .error (.notMatchable t.kind)
  | p, t =>
    if p.equals t then .ok true
    else match p.key? with
      | none => .error (.notKey p.kind)
      | some _ => .error (.notPattern p.kind)

/-- Whether some item passes a test, as far as it has to be tried. -/
def anyPasses {α : Type} (test : α → Except Fault Bool) : List α → Except Fault Bool
  | [] => .ok false
  | a :: rest => do
    if ← test a then return true
    anyPasses test rest

/-! ## Edge indexes -/

/-- The edges of each owner under its action patterns. -/
abbrev EdgeIndex := OrderedMap Identifier (OrderedMap String (List Edge))

namespace EdgeIndex

/-- Records an edge under its owner and action pattern. -/
def add (ix : EdgeIndex) (owner : Identifier) (action : String) (e : Edge) : EdgeIndex :=
  ix.alter owner fun held => (held.getD .empty).push action e

/-- What is recorded of an owner. -/
def of (ix : EdgeIndex) (owner : Identifier) : OrderedMap String (List Edge) :=
  (ix.get? owner).getD .empty

/-- The edges of an owner whose action pattern covers an action. -/
def concerning (ix : EdgeIndex) (owner : Identifier) (action : String) : List Edge :=
  (ix.of owner).entries.flatMap fun (pattern, edges) =>
    if actionMatches pattern action then edges else []

/-- All edges with their owners and action patterns. -/
def list (ix : EdgeIndex) : List (Identifier × String × Edge) :=
  ix.entries.flatMap fun (owner, held) =>
    held.entries.flatMap fun (action, edges) => edges.map fun e => (owner, action, e)

end EdgeIndex

/-! ## Graphs -/

structure Graph where
  principals : OrderedMap Identifier Principal
  resources : OrderedMap Identifier Resource
  allows : EdgeIndex
  denies : EdgeIndex
  /-- For each role, those who may assume it. -/
  trust : OrderedMap Identifier (List String)
  guardrails : List Document

namespace Graph

def empty : Graph where
  principals := .empty
  resources := .empty
  allows := .empty
  denies := .empty
  trust := .empty
  guardrails := []

instance : Inhabited Graph := ⟨empty⟩

/-- Records a principal; one with the same identifier is replaced in its place. -/
def insertPrincipal (g : Graph) (p : Principal) : Except Fault Graph := do
  let id ← Identifier.ofJson p.arn
  return { g with principals := g.principals.insert id p }

/-- Records a resource; one with the same identifier is replaced in its place. -/
def insertResource (g : Graph) (r : Resource) : Except Fault Graph := do
  let id ← Identifier.ofJson r.arn
  return { g with resources := g.resources.insert id r }

/-- Records what an owner is allowed or denied. -/
def insertEdge (g : Graph) (owner : Identifier) (action : String) (deny : Bool) (e : Edge) :
    Graph :=
  if deny then { g with denies := g.denies.add owner action e }
  else { g with allows := g.allows.add owner action e }

/-- Records that someone may assume a role. -/
def insertTrust (g : Graph) (trustor : String) (role : Identifier) : Graph :=
  { g with trust := g.trust.push role trustor }

/-- Records an organization policy. -/
def insertGuardrail (g : Graph) (d : Document) : Graph :=
  { g with guardrails := g.guardrails ++ [d] }

/-! ## Readers -/

def principal? (g : Graph) (id : Identifier) : Option Principal := g.principals.get? id

def resource? (g : Graph) (id : Identifier) : Option Resource := g.resources.get? id

/-- Those who may assume a role, as recorded. -/
def trustors (g : Graph) (role : Identifier) : List String := (g.trust.get? role).getD []

/-- Whether a list of trustors admits someone: by name, or because it admits everyone. -/
def admits (trustors : List String) (id : Json) : Bool :=
  trustors.contains Arn.anyone || match id with
    | .str s => trustors.contains s
    | _ => false

/-- The roles that someone may assume, in order of their first mention. -/
def rolesOpenTo (g : Graph) (id : Json) : List Identifier :=
  (g.trust.entries.filter fun (_, trustors) => admits trustors id).map (·.1)

/-- Whether someone may assume a role. -/
def mayAssume (g : Graph) (id : Json) (role : Identifier) : Bool := admits (g.trustors role) id

/-- The action patterns under which an owner is allowed something on a resource, whatever the
conditions and other layers say. -/
def openActions (g : Graph) (owner : Identifier) (resource : Json) :
    Except Fault (List String) := do
  let held ← (g.allows.of owner).entries.filterM fun (_, edges) =>
    anyPasses (fun e => covers e.pattern resource) edges
  return held.map (·.1)

/-- Whether an owner has an allow edge with exactly this action and resource pattern. -/
def allowsExactly (g : Graph) (owner : Identifier) (action : String) (pattern : Json) : Bool :=
  (((g.allows.of owner).get? action).getD []).any fun e => e.pattern.equals pattern

/-- The number of principals and resources. -/
def size (g : Graph) : Nat := g.principals.size + g.resources.size

def sizes (g : Graph) : Sizes where
  principals := g.principals.size
  resources := g.resources.size
  allows := g.allows.list.length
  denies := g.denies.list.length
  trusts := g.trust.values.flatten.length
  guardrails := g.guardrails.length

end Graph
end CloudAccess
