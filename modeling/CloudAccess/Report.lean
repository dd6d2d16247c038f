import CloudAccess.Reach.Trust

/-!
# Reports

Questions about a whole graph: who holds a permission (`Graph.holders`), what is open to the
public (`Graph.publicResources`) and what is risky (`Graph.findings`, the most severe first).
-/

namespace CloudAccess

open Condition (Evaluator)

/-! ## Risks -/

inductive Risk where
  /-- A principal may do everything. -/
  | fullAdmin
  /-- The public may do something on a resource. -/
  | publicAccess
  /-- Anyone may step into a role. -/
  | wildcardTrust
  /-- A role trusts someone of another account. -/
  | crossAccountTrust
deriving DecidableEq

namespace Risk

def name : Risk → String
  | fullAdmin => "full_admin"
  | publicAccess => "public_access"
  | wildcardTrust => "wildcard_trust"
  | crossAccountTrust => "cross_account_trust"

/-- How severe risks are called. -/
def severity : Risk → String
  | crossAccountTrust => "HIGH"
  | _ => "CRITICAL"

/-- The place of a risk among all, the most severe first. -/
def rank : Risk → Nat
  | crossAccountTrust => 1
  | _ => 0

end Risk

structure Finding where
  risk : Risk
  description : String
  principal : Json
  resource : Json
  action : String

def Finding.toJson (f : Finding) : Json :=
  .obj [("type", .str f.risk.name), ("severity", .str f.risk.severity),
    ("description", .str f.description), ("principal", f.principal), ("resource", f.resource),
    ("action", .str f.action)]

/-- The sizes of a graph as a record. -/
def Sizes.toJson (s : Sizes) : Json :=
  .obj [("principals", .int s.principals), ("resources", .int s.resources),
    ("allow_edges", .int s.allows), ("deny_edges", .int s.denies),
    ("trust_relations", .int s.trusts), ("scps", .int s.guardrails)]

namespace Graph

/-- The principals that are permitted an action on a resource, in the graph's order. -/
def holders (g : Graph) (ev : Evaluator) (c : Context) (resource : Json) (action : String) :
    Run Fault (List Principal) :=
  go g.principals.values
where
  go : List Principal → Run Fault (List Principal)
    | [] => pure []
    | p :: rest => do
      let ok ← g.permits ev ⟨action, resource, c⟩ p.arn
      let others ← go rest
      return if ok then p :: others else others

/-- The resources on which the public is allowed something. -/
def publicResources (g : Graph) : Except Fault (List Resource) :=
  if (g.principal? Arn.anyone).isNone then .ok []
  else g.resources.values.filterM fun r => do
    return !(← g.openActions Arn.anyone r.arn).isEmpty

/-- Whether a principal is allowed everything on everything. -/
def isAdmin (g : Graph) (p : Principal) : Bool :=
  match Identifier.ofJson? p.arn with
  | some id => p.kind ≠ .anyone && g.allowsExactly id "*" "*"
  | none => false

/-- What is risky about a principal itself. -/
def adminFindings (g : Graph) (p : Principal) : List Finding :=
  if g.isAdmin p then [{
    risk := .fullAdmin
    description := s!"{p.title} is allowed every action on every resource"
    principal := p.arn
    resource := "*"
    action := "*" }]
  else []

/-- What is risky about a resource open to the public. -/
def publicFinding (g : Graph) (r : Resource) : Except Fault Finding := do
  let actions ← g.openActions Arn.anyone r.arn
  return {
    risk := .publicAccess
    description := s!"{r.title} is publicly accessible"
    principal := .str Arn.anyone
    resource := r.arn
    action := ", ".intercalate actions }

/-- What is risky about the trust of a role in someone. -/
def trustFindings (p : Principal) (trustor : String) : List Finding :=
  if trustor = Arn.anyone then [{
    risk := .wildcardTrust
    description := s!"Role {p.title} can be assumed by anyone"
    principal := .str trustor
    resource := p.arn
    action := assumeRole }]
  else match p.arn, Arn.account? trustor with
    | .str arn, some account =>
      if Arn.differentAccounts trustor arn then [{
        risk := .crossAccountTrust
        description := s!"Role {p.title} trusts account {account}"
        principal := .str trustor
        resource := p.arn
        action := assumeRole }]
      else []
    | _, _ => []

/-- What is risky about the trust of a role. -/
def roleFindings (g : Graph) (p : Principal) : List Finding :=
  match p.kind, Identifier.ofJson? p.arn with
  | .role, some id => (g.trustors id).flatMap (trustFindings p)
  | _, _ => []

/-- All that is risky, the most severe first. -/
def findings (g : Graph) : Except Fault (List Finding) := do
  let people := g.principals.values
  let exposed ← (← g.publicResources).mapM g.publicFinding
  let all := people.flatMap g.adminFindings ++ exposed ++ people.flatMap g.roleFindings
  return all.mergeSort fun a b => a.risk.rank ≤ b.risk.rank

end Graph
end CloudAccess
