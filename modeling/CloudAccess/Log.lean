import CloudAccess.Json.Display

/-!
# Log events

What a run has to tell beside its answer.  An event is data; its severity, the part of the
program it comes from and its wording are functions on it.
-/

namespace CloudAccess

inductive Severity where
  | debug | info | warning | error
deriving DecidableEq

namespace Severity

def name : Severity → String
  | debug => "DEBUG"
  | info => "INFO"
  | warning => "WARNING"
  | error => "ERROR"

def rank : Severity → Nat
  | debug => 0
  | info => 1
  | warning => 2
  | error => 3

def ofName? (s : String) : Option Severity := [debug, info, warning, error].find? (·.name = s)

end Severity

/-- The layers of policies that list what they allow. -/
inductive Guard where
  | organization | boundary | session
deriving DecidableEq

def Guard.name : Guard → String
  | organization => "SCP"
  | boundary => "permission boundary"
  | session => "session policy"

/-- The sizes of a graph. -/
structure Sizes where
  principals : Nat
  resources : Nat
  allows : Nat
  denies : Nat
  trusts : Nat
  guardrails : Nat
deriving DecidableEq

inductive Event where
  /-- An organization policy is attached to nothing that governs the account. -/
  | attachmentSkipped (id : String) (account : Json)
  | attachmentsKept (kept total : Nat) (account : Json)
  /-- A pattern of a resource policy reaches nothing of its resource. -/
  | patternDropped (pattern : String) (resource : Json)
  | everyoneAdded
  | principalCompiled (edges : Nat) (arn : Json)
  | resourceCompiled (edges : Nat) (arn : Json)
  | graphBuilt (sizes : Sizes)
  | guardSilent (guard : Guard) (action : String) (resource : Json)
  | guardDenies (guard : Guard) (action : String) (resource : Json) (sid : String)
  | guardAllowUndecided (guard : Guard) (sid reason : String)
  | guardDenyUndecided (guard : Guard) (sid reason : String)
  | denyUndecided (owner resource : Json) (reason : String)
  | denied (principal : String) (owner : Json) (label : String)
  | allowUndecided (principal : String) (resource : Json) (reason : String)
  | inherited (principal action : String) (resource group : Json)
  | decided (principal : Json) (action : String) (resource : Json) (allowed : Bool) (layer : String)
  | pathsFound (count : Nat) (source target : Json)
  | snapshotLoaded (principals resources : Nat) (path : String)
  | updateIgnored (arn : String)
  | loading (path : String)
  | holdersAsked (resource action : String)
  | accessAnswered (principal action resource : String) (allowed : Bool) (layer : String)
  | pathsAsked (source target action : String) (maxHops : Int)
  | reported (resources findings : Nat)
  | compared (granted revoked unchanged : Nat)
  | failed (command error : String)
deriving Inhabited

namespace Event

def severity : Event → Severity
  | graphBuilt _ | loading _ | holdersAsked .. | accessAnswered .. | pathsAsked .. | reported ..
  | compared .. => .info
  | guardAllowUndecided .. | guardDenyUndecided .. | denyUndecided .. | allowUndecided ..
  | updateIgnored _ => .warning
  | failed .. => .error
  | _ => .debug

/-- The part of the program that an event comes from. -/
def origin : Event → String
  | attachmentSkipped .. => "accessmap.iam.scp_resolver"
  | attachmentsKept .. | principalCompiled .. | resourceCompiled .. | graphBuilt _ =>
    "accessmap.graph.builder"
  | patternDropped .. | everyoneAdded => "accessmap.graph.compiler"
  | guardSilent .. | guardDenies .. | guardAllowUndecided .. | guardDenyUndecided ..
  | denyUndecided .. | denied .. | allowUndecided .. | inherited .. => "accessmap.graph.evaluator"
  | decided .. => "accessmap.graph.access_graph"
  | pathsFound .. => "accessmap.query.engine"
  | snapshotLoaded .. | updateIgnored _ => "accessmap.simulation"
  | loading _ | failed .. => "accessmap.cli_utils"
  | holdersAsked .. => "accessmap.commands.who_can"
  | accessAnswered .. => "accessmap.commands.can_access"
  | pathsAsked .. => "accessmap.commands.path"
  | reported .. => "accessmap.commands.report"
  | compared .. => "accessmap.commands.simulate"

def orElse (s replacement : String) : String := if s.isEmpty then replacement else s

def message : Event → String
  | attachmentSkipped id account =>
    let name := orElse id "<unnamed>"
    s!"SCP {name} does not apply to account {account.shown}"
  | attachmentsKept kept total account =>
    let name := (account.orIfBlank "<unknown>").shown
    s!"{kept} of {total} SCP attachments apply to account {name}"
  | patternDropped pattern resource => s!"Dropping pattern {pattern} outside of {resource.shown}"
  | everyoneAdded => "Creating public principal node"
  | principalCompiled edges arn => s!"Compiled {edges} edges for {arn.shown}"
  | resourceCompiled edges arn => s!"Compiled {edges} resource-policy edges for {arn.shown}"
  | graphBuilt s =>
    s!"Built access graph: {s.principals} principals, {s.resources} resources, " ++
      s!"{s.allows} allow edges, {s.denies} deny edges, {s.guardrails} SCPs"
  | guardSilent guard action resource =>
    s!"{guard.name} does not allow {action} on {resource.shown}"
  | guardDenies guard action resource sid =>
    s!"{guard.name} explicitly denies {action} on {resource.shown} (statement {sid})"
  | guardAllowUndecided guard sid reason =>
    let label := orElse sid "<no sid>"
    s!"Failed to evaluate {guard.name} allow condition (statement {label}): " ++
      s!"{reason} (skipping this allow)"
  | guardDenyUndecided guard sid reason =>
    let label := orElse sid "<no sid>"
    s!"Failed to evaluate {guard.name} deny condition (statement {label}): " ++
      s!"{reason} (assuming deny applies)"
  | denyUndecided owner resource reason =>
    s!"Failed to evaluate deny condition for {owner.shown} on {resource.shown}: {reason} " ++
      "(assuming deny applies)"
  | denied principal owner label => s!"Explicit deny for {principal} from {owner.shown} ({label})"
  | allowUndecided principal resource reason =>
    s!"Failed to evaluate allow condition for {principal} on {resource.shown}: {reason} " ++
      "(skipping this allow)"
  | inherited principal action resource group =>
    s!"{principal} inherits {action} on {resource.shown} from {group.shown}"
  | decided principal action resource allowed layer =>
    let word := if allowed then "ALLOW" else "DENY"
    s!"{principal.shown} {action} on {resource.shown}: {word} ({layer})"
  | pathsFound count source target =>
    s!"Found {count} path(s) from {source.shown} to {target.shown}"
  | snapshotLoaded principals resources path =>
    s!"Loaded {principals} principals and {resources} resources from {path}"
  | updateIgnored arn => s!"Policy update targets unknown principal {arn} (ignored)"
  | loading path => s!"Loading snapshot from {path}"
  | holdersAsked resource action => s!"who-can: resource={resource}, action={action}"
  | accessAnswered principal action resource allowed layer =>
    let word := if allowed then "True" else "False"
    s!"can-access {principal} {action} {resource} -> {word} ({layer})"
  | pathsAsked source target action maxHops =>
    s!"path: from={source}, to={target}, action={action}, max_hops={intText maxHops}"
  | reported resources findings => s!"report: {resources} public resources, {findings} findings"
  | compared granted revoked unchanged => s!"simulate diff: +{granted} -{revoked} ={unchanged}"
  | failed command error => s!"{command} failed: {error}"

end Event
end CloudAccess
