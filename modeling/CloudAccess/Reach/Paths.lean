import CloudAccess.Reach.Trust

/-!
# Paths to a resource

A principal reaches a resource when it is permitted the action on it, or when it can step into a
role that reaches it.  `Graph.paths` lists the ways, shorter ones first and those of equal
length in the order of the roles stepped into.

The search goes level by level.  A way ends at the first principal that is permitted the action;
a role that was reached at one level is not entered again at a deeper one, so that every level
but the first enters a role for the first time.  `search` counts down the roles not yet
entered.

What the search asks is kept apart from what it does with the answers: it leaves a trace of
`Inquiry`, and each inquiry is told in the log once.
-/

namespace CloudAccess

open Condition (Evaluator)

/-- What a search asks about a principal. -/
inductive Inquiry where
  | access (id : Identifier)
  | roles (id : Identifier)

namespace Inquiry

instance : BEq Inquiry where
  beq
    | access a, access b => a == b
    | roles a, roles b => a == b
    | _, _ => false

end Inquiry

/-- A row of principals, each stepping into the next; the last one comes first. -/
structure Chain where
  last : Identifier
  before : List Identifier

namespace Chain

def single (id : Identifier) : Chain := ⟨id, []⟩

/-- A chain and one more step. -/
def step (c : Chain) (role : Identifier) : Chain := ⟨role, c.last :: c.before⟩

/-- The principals from the first one on. -/
def members (c : Chain) : List Identifier := (c.last :: c.before).reverse

end Chain

/-! ## The search -/

/-- The answers that a search works with. -/
structure Oracle where
  /-- Whether a principal is permitted the action. -/
  permits : Identifier → Except Fault Bool
  /-- The roles that a principal can step into. -/
  roles : Identifier → Except Fault (List Identifier)

namespace Oracle

/-- A search asks and goes on with the answer. -/
abbrev Search (α : Type) := Traced Inquiry Fault α

def askAccess (o : Oracle) (id : Identifier) : Search Bool := do
  Traced.note (.access id)
  Traced.ofExcept (o.permits id)

def askRoles (o : Oracle) (id : Identifier) : Search (List Identifier) := do
  Traced.note (.roles id)
  Traced.ofExcept (o.roles id)

/-- Goes through the chains of a level: those that arrive, as long as there is room for them,
and the continuations of the others by roles that are fresh. -/
def scan (o : Oracle) (fresh : List Identifier) (deeper : Bool) :
    Nat → List Chain → Search (List Chain × List Chain)
  | 0, _ => pure ([], [])
  | _ + 1, [] => pure ([], [])
  | room + 1, c :: rest => do
    if ← o.askAccess c.last then
      let (arrived, next) ← scan o fresh deeper room rest
      return (c :: arrived, next)
    else
      let roles ← if deeper then o.askRoles c.last else pure []
      let (arrived, next) ← scan o fresh deeper (room + 1) rest
      return (arrived, (roles.filter fresh.contains).map c.step ++ next)

/-- The roles that stay fresh after a level has entered some. -/
def remaining (fresh : List Identifier) (entered : List Chain) : List Identifier :=
  fresh.filter fun r => !entered.any fun c => c.last == r

/-- Searches from a level of chains of the given length.  When no role was entered for the first
time, there is nothing left to go through. -/
def search (o : Oracle) (maxHops : Int) (fresh : List Identifier) (length room : Nat)
    (level : List Chain) : Search (List Chain) := do
  let (arrived, next) ← o.scan fresh (length < maxHops) room level
  let left := room - arrived.length
  if left = 0 then return arrived
  if _h : (remaining fresh next).length < fresh.length then
    let others ← search o maxHops (remaining fresh next) (length + 1) left next
    return arrived ++ others
  else return arrived
termination_by fresh.length

end Oracle

/-! ## Paths -/

/-- A step of a path: the assumption of a role, or the final access. -/
structure Hop where
  source : Json
  target : Json
  action : String
  isTrust : Bool

structure Path where
  source : Identifier
  target : Identifier
  action : String
  hops : List Hop

namespace Path

/-- The steps from each principal of a chain into the next, and the final access. -/
def hopsOf (target : Identifier) (action : String) : List Identifier → List Hop
  | [] => []
  | [last] => [⟨last.value, target.value, action, false⟩]
  | a :: b :: rest => ⟨a.value, b.value, assumeRole, true⟩ :: hopsOf target action (b :: rest)

def ofChain (source target : Identifier) (action : String) (c : Chain) : Path where
  source := source
  target := target
  action := action
  hops := hopsOf target action c.members

/-- The principals along a path. -/
def principals (p : Path) : List Json := p.hops.map Hop.source

end Path

/-- By which kind of policy a hop is granted. -/
def Hop.grantedBy (h : Hop) : String := if h.isTrust then "trust" else "identity"

def Hop.toJson (h : Hop) : Json :=
  .obj [("from", h.source), ("to", h.target), ("action", .str h.action),
    ("policy_type", .str h.grantedBy), ("policy_name", .str "")]

def Path.toJson (p : Path) : Json :=
  .obj [("from", p.source.value), ("to", p.target.value), ("action", .str p.action),
    ("hops", .arr (p.hops.map Hop.toJson))]

/-- Why a question has no answer. -/
inductive QueryError where
  | unknownPrincipal (id : Identifier)
  | unknownResource (id : Identifier)
  | fault (f : Fault)

def QueryError.message : QueryError → String
  | unknownPrincipal id => s!"principal not found: {id.value.shown}"
  | unknownResource id => s!"resource not found: {id.value.shown}"
  | fault f => f.message

namespace Graph

/-- A principal that has to be in the graph. -/
def knownPrincipal (g : Graph) (id : Identifier) : Except QueryError Principal :=
  match g.principal? id with
  | some p => .ok p
  | none => .error (.unknownPrincipal id)

/-- A resource that has to be in the graph. -/
def knownResource (g : Graph) (id : Identifier) : Except QueryError Resource :=
  match g.resource? id with
  | some r => .ok r
  | none => .error (.unknownResource id)

/-- How far a search may go. -/
structure Bounds where
  maxHops : Int
  maxPaths : Int

def Bounds.default : Bounds := ⟨5, 10⟩

/-- Whether a principal is permitted a request, with the log of it. -/
def accessOf (g : Graph) (ev : Evaluator) (r : Request) (id : Identifier) : Run Fault Bool :=
  g.permits ev r id.value

/-- The roles that a principal can step into, with the log of it.  The trust is read first. -/
def rolesFor (g : Graph) (ev : Evaluator) (trust : Except Fault TrustGraph) (c : Context)
    (id : Identifier) : Run Fault (List Identifier) := do
  let t ← Traced.ofExcept trust
  t.rolesOf g ev c (← Traced.ofExcept (principalText id.value))

/-- The roles that a search may enter: those that are trusted to anyone, but not its start. -/
def enterable (trust : Except Fault TrustGraph) (start : Identifier) : List Identifier :=
  match trust with
  | .ok t => t.roles.eraseDups.filter fun r => !(r == start)
  | .error _ => []

/-- The search for the ways from a principal to a resource, with the log of each inquiry. -/
def explore (g : Graph) (ev : Evaluator) (v : Viewpoint) (source target : Identifier)
    (action : String) (b : Bounds) : Oracle.Search (List Chain) × (Inquiry → List Event) :=
  let trust := v.trustOn g
  let access (id : Identifier) := g.accessOf ev ⟨action, target.value, v.context⟩ id
  let roles (id : Identifier) := g.rolesFor ev trust v.context id
  let oracle : Oracle := ⟨fun id => (access id).outcome, fun id => (roles id).outcome⟩
  (oracle.search b.maxHops (enterable trust source) 1 b.maxPaths.toNat [.single source], fun
    | .access id => (access id).trace
    | .roles id => (roles id).trace)

/-- Whether a search has asked for roles, for which the trust had to be read. -/
def readsTrust (inquiries : List Inquiry) : Bool :=
  inquiries.any fun
    | .roles _ => true
    | .access _ => false

/-- The ways in which a principal reaches a resource, and the viewpoint with the trust that was
read. -/
def paths (g : Graph) (ev : Evaluator) (v : Viewpoint) (source target : Identifier)
    (action : String) (b : Bounds) : Viewpoint × Run QueryError (List Path) :=
  match g.knownPrincipal source, g.knownResource target with
  | .error missing, _ => (v, .fail missing)
  | _, .error missing => (v, .fail missing)
  | .ok _, .ok _ =>
    let (found, log) := g.explore ev v source target action b
    let chains : Run Fault (List Chain) :=
      ⟨found.outcome, found.trace.eraseDups.flatMap log⟩
    (if readsTrust found.trace then v.reading g else v, do
      let chains ← chains.mapError .fault
      Traced.note (.pathsFound chains.length source.value target.value)
      return chains.map (Path.ofChain source target action))

end Graph
end CloudAccess
