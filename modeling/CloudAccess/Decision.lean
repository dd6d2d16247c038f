import CloudAccess.Condition.Block
import CloudAccess.Graph.Basic
import CloudAccess.Run

/-!
# Decisions

A request of a principal is decided by layers, in this order: the organization's policies, the
permission boundary, the policy of the session, what is denied, what is allowed, and what groups
are allowed.  The first layer that allows or denies settles the request; if none does it is
denied.

A layer of policies that guard lets a request through when one of its statements allows it and
none denies it.  A condition that cannot be decided counts against the request: a deny applies
and an allow does not.

* `Layer.verdict`: what one layer says.
* `Graph.decision`: the decision with the layer that settled it.
* `Graph.permits`: whether the request is allowed.
-/

namespace CloudAccess

open Condition (Evaluator)

/-- What one layer says of a request. -/
inductive Verdict where
  | allow | deny | notApplicable
deriving DecidableEq

def Verdict.name : Verdict → String
  | allow => "allow"
  | deny => "deny"
  | notApplicable => "not_applicable"

inductive Layer where
  | organization | boundary | session | denials | grants | groups
deriving DecidableEq

namespace Layer

def name : Layer → String
  | organization => "organization-guardrail"
  | boundary => "permission-boundary"
  | session => "session-policy"
  | denials => "explicit-deny"
  | grants => "explicit-allow"
  | groups => "group-inheritance"

/-- The layers that decide for a group, which belongs to no further group. -/
def own : List Layer := [organization, boundary, session, denials, grants]

/-- All layers in their order. -/
def all : List Layer := own ++ [groups]

end Layer

/-- The outcome of a request; no layer settled it when it is denied for want of a grant. -/
structure Decision where
  allowed : Bool
  layer : Option Layer
deriving DecidableEq

namespace Decision

/-- The decision when no layer applies. -/
def implicit : Decision := ⟨false, none⟩

def layerName (d : Decision) : String :=
  match d.layer with
  | some l => l.name
  | none => "implicit-deny"

end Decision

/-! ## Layers that guard -/

/-- Whether a statement is about a request. -/
def Statement.concerns (s : Statement) (r : Request) : Except Fault Bool :=
  if s.actions.any (actionMatches · r.action) then
    anyPasses (fun p => covers (.str p) r.resource) s.resources
  else .ok false

namespace Guard

/-- Whether some statement allows a request. -/
def allowed (guard : Guard) (e : Evaluator) (r : Request) : List Statement → Run Fault Bool
  | [] => pure false
  | s :: rest => do
    if !s.isAllow then allowed guard e r rest
    else if !(← Traced.ofExcept (s.concerns r)) then allowed guard e r rest
    else match e s.condition r.context with
      | .error reason =>
        Traced.note (.guardAllowUndecided guard s.sid reason)
        allowed guard e r rest
      | .ok true => return true
      | .ok false => allowed guard e r rest

/-- Whether some statement denies a request. -/
def denied (guard : Guard) (e : Evaluator) (r : Request) : List Statement → Run Fault Bool
  | [] => pure false
  | s :: rest => do
    if !s.isDeny then denied guard e r rest
    else if !(← Traced.ofExcept (s.concerns r)) then denied guard e r rest
    else match e s.condition r.context with
      | .error reason =>
        Traced.note (.guardDenyUndecided guard s.sid reason)
        return true
      | .ok true =>
        Traced.note (.guardDenies guard r.action r.resource s.sid)
        return true
      | .ok false => denied guard e r rest

/-- What the statements of a layer that guards say: the request is let through when one allows
it and none denies it. -/
def verdict (guard : Guard) (e : Evaluator) (r : Request) (ss : List Statement) :
    Run Fault Verdict := do
  if ← guard.allowed e r ss then
    return if ← guard.denied e r ss then .deny else .notApplicable
  else
    Traced.note (.guardSilent guard r.action r.resource)
    return .deny

end Guard

/-! ## Layers of edges -/

namespace Graph

/-- Whether one of an owner's edges denies a request. -/
def deniedBy (e : Evaluator) (r : Request) (principal : String) (owner : Json) :
    List Edge → Run Fault Bool
  | [] => pure false
  | edge :: rest => do
    if !(← Traced.ofExcept (covers edge.pattern r.resource)) then
      deniedBy e r principal owner rest
    else match e edge.conditions r.context with
      | .error reason =>
        Traced.note (.denyUndecided owner r.resource reason)
        return true
      | .ok true =>
        Traced.note (.denied principal owner edge.label)
        return true
      | .ok false => deniedBy e r principal owner rest

/-- Whether one of the owners is denied a request. -/
def deniedToAny (g : Graph) (e : Evaluator) (r : Request) (principal : String) :
    List Json → Run Fault Bool
  | [] => pure false
  | owner :: rest => do
    let id ← Traced.ofExcept (Identifier.ofJson owner)
    if ← deniedBy e r principal owner (g.denies.concerning id r.action) then return true
    deniedToAny g e r principal rest

/-- Whether one of a principal's edges allows a request. -/
def allowedBy (e : Evaluator) (r : Request) (principal : String) : List Edge → Run Fault Bool
  | [] => pure false
  | edge :: rest => do
    if !(← Traced.ofExcept (covers edge.pattern r.resource)) then
      allowedBy e r principal rest
    else match e edge.conditions r.context with
      | .error reason =>
        Traced.note (.allowUndecided principal r.resource reason)
        allowedBy e r principal rest
      | .ok true => return true
      | .ok false => allowedBy e r principal rest

/-- The groups of a principal, none when it is not in the graph. -/
def groupsOf (g : Graph) (principal : String) : List Json :=
  match g.principal? principal with
  | some p => p.groups
  | none => []

/-- What the layers other than groups say. -/
def ownVerdict (g : Graph) (e : Evaluator) (r : Request) (principal : String) :
    Layer → Run Fault Verdict
  | .organization =>
    if Arn.isAccountRoot principal || g.guardrails.isEmpty then pure .notApplicable
    else Guard.organization.verdict e r (g.guardrails.flatMap Document.statements)
  | .boundary =>
    match (g.principal? principal).bind Principal.boundary with
    | none => pure .notApplicable
    | some d => Guard.boundary.verdict e r d.statements
  | .session =>
    match r.context.session with
    | none => pure .notApplicable
    | some d => Guard.session.verdict e r d.statements
  | .denials => do
    let hit ← g.deniedToAny e r principal (.str principal :: g.groupsOf principal)
    return if hit then .deny else .notApplicable
  | .grants => do
    let hit ← allowedBy e r principal (g.allows.concerning principal r.action)
    return if hit then .allow else .notApplicable
  | .groups => pure .notApplicable

/-! ## Decisions -/

/-- The first of some layers that allows or denies settles a request. -/
def settle (verdict : Layer → Run Fault Verdict) : List Layer → Run Fault Decision
  | [] => pure .implicit
  | l :: rest => do
    match ← verdict l with
    | .allow => return ⟨true, some l⟩
    | .deny => return ⟨false, some l⟩
    | .notApplicable => settle verdict rest

/-- A principal of a request is named by a text. -/
def principalText : Json → Except Fault String
  | .str s => .ok s
  | v => .error (.noOperation v.kind "endswith")

/-- Whether one of the groups is granted a request. -/
def grantedToAny (g : Graph) (e : Evaluator) (r : Request) (principal : String) :
    List Json → Run Fault Bool
  | [] => pure false
  | group :: rest => do
    let name ← Traced.ofExcept (principalText group)
    if (← settle (g.ownVerdict e r name) Layer.own).allowed then
      Traced.note (.inherited principal r.action r.resource group)
      return true
    grantedToAny g e r principal rest

/-- What a layer says of a principal's request. -/
def verdict (g : Graph) (e : Evaluator) (r : Request) (principal : String) :
    Layer → Run Fault Verdict
  | .groups => do
    let hit ← g.grantedToAny e r principal (g.groupsOf principal)
    return if hit then .allow else .notApplicable
  | l => g.ownVerdict e r principal l

/-- The decision on a principal's request. -/
def decide (g : Graph) (e : Evaluator) (r : Request) (principal : String) : Run Fault Decision :=
  settle (g.verdict e r principal) Layer.all

/-- The decision on a request of whatever is given as a principal, told in the log. -/
def decision (g : Graph) (e : Evaluator) (r : Request) (principal : Json) :
    Run Fault Decision := do
  let name ← Traced.ofExcept (principalText principal)
  let d ← g.decide e r name
  Traced.note (.decided principal r.action r.resource d.allowed d.layerName)
  return d

/-- Whether a request is allowed. -/
def permits (g : Graph) (e : Evaluator) (r : Request) (principal : Json) : Run Fault Bool := do
  return (← g.decision e r principal).allowed

end Graph
end CloudAccess
