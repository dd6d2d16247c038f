import CloudAccess.CommandLine.Commands
import CloudAccess.Console.Style
import CloudAccess.Report
import CloudAccess.WhatIf.Changes
import CloudAccess.WhatIf.Difference

/-!
# Answers

What the program has to say to each query, as JSON or for people to read.
-/

namespace CloudAccess.CommandLine

open Console (Item Table Tree)

/-- What a query gives: JSON text or things to show, and whether it found issues. -/
structure Answer where
  json : Option Json
  shown : List Item
  issues : Bool

namespace Answer

def ofJson (v : Json) : Answer := ⟨some v, [], false⟩

def ofItems (items : List Item) : Answer := ⟨none, items, false⟩

/-- An answer in the form that is asked for. -/
def inForm (globals : Globals) (json : Json) (items : List Item) : Answer :=
  if globals.json then ofJson json else ofItems items

end Answer

/-! ## Loading -/

/-- Loads a snapshot, told in the log. -/
def loadSnapshot (fs : Files) (path : String) : Run AccessError Snapshot := do
  Traced.note (.loading path)
  fs.loadSnapshot path

/-- Loads a snapshot and its graph. -/
def loadGraph (fs : Files) (path : String) : Run AccessError (Snapshot × Graph) := do
  let s ← loadSnapshot fs path
  return (s, ← s.graph)

/-- A run that can only end in a fault, as a part of a run of a query. -/
def orFault {α : Type} (run : Run Fault α) : Run AccessError α := run.mapError .fault

def orUnknown {α : Type} (x : Except QueryError α) : Run AccessError α :=
  Traced.ofExcept (x.mapError .ofQueryError)

/-! ## Who can -/

def holderJson (p : Principal) : Json :=
  .obj [("arn", p.arn), ("type", .str p.kind.name), ("name", p.name)]

/-- The row of a principal in a table; only texts can be shown there. -/
def holderRow (p : Principal) : Except AccessError (List String) := do
  let cell (v : Json) : Except AccessError String :=
    match v with
    | .str s => .ok s
    | v => .error (.unshowable v.kind)
  return [← cell (p.name.orIfBlank "-"), p.kind.name, ← cell p.arn]

def whoCan (globals : Globals) (c : Context) (fs : Files) (data resource action : String) :
    Run AccessError Answer := do
  Traced.note (.holdersAsked resource action)
  let (_, g) ← loadGraph fs data
  let holders ← orFault (g.holders Condition.standard c resource action)
  if globals.json then
    return .ofJson (.obj [("resource", .str resource), ("action", .str action),
      ("principals", .arr (holders.map holderJson))])
  if holders.isEmpty then
    return .ofItems [.line s!"[yellow]No principals can perform {action} on {resource}[/yellow]"]
  let rows ← Traced.ofExcept (holders.mapM holderRow)
  return .ofItems [
    .table ⟨s!"Who can {action} on {resource}", ["Name", "Type", "ARN"], rows⟩,
    .line s!"[green]{holders.length} principal(s) found[/green]"]

/-! ## Can access -/

def canAccess (globals : Globals) (c : Context) (fs : Files)
    (data principal action resource : String) : Run AccessError Answer := do
  let (_, g) ← loadGraph fs data
  let _ ← orUnknown (g.knownPrincipal principal)
  let _ ← orUnknown (g.knownResource resource)
  let d ← orFault (g.decision Condition.standard ⟨action, .str resource, c⟩ (.str principal))
  Traced.note (.accessAnswered principal action resource d.allowed d.layerName)
  let word := if d.allowed then "[green]✓ ALLOWED[/green]" else "[red]✗ DENIED[/red]"
  return .inForm globals
    (.obj [("principal", .str principal), ("action", .str action), ("resource", .str resource),
      ("allowed", .bool d.allowed), ("stage", .str d.layerName)])
    [.line s!"{word} [dim](decided by {d.layerName})[/dim]"]

/-! ## Paths -/

/-- The steps of a path, each under the one before it. -/
def branch : List Hop → List Tree
  | [] => []
  | h :: rest =>
    let label := if h.isTrust then "AssumeRole" else h.action
    let target := h.target.shown
    [.node s!"[dim]↓ {label}[/dim]" [.node s!"[cyan]{target}[/cyan]" (branch rest)]]

/-- A path with its number among all. -/
def pathItems (p : Path) (number : Nat) : List Item :=
  let count := p.hops.length
  let plural := if count = 1 then "" else "s"
  [.line s!"[bold]Path {number}[/bold] ({count} hop{plural})",
    .tree (.node s!"[cyan]{p.source.value.shown}[/cyan]" (branch p.hops)),
    .line ""]

def path (globals : Globals) (c : Context) (fs : Files) (data source target action : String)
    (bounds : Graph.Bounds) : Run AccessError Answer := do
  Traced.note (.pathsAsked source target action bounds.maxHops)
  let (_, g) ← loadGraph fs data
  let found := (g.paths Condition.standard (.ofContext c) source target action bounds).2
  let paths ← found.mapError .ofQueryError
  let items : List Item :=
    if paths.isEmpty then
      [.line s!"[yellow]No path found from {source} to {target} for {action}[/yellow]"]
    else
      .line s!"[green]Found {paths.length} path(s):[/green]\n" ::
        (paths.zipIdx 1).flatMap fun (p, number) => pathItems p number
  return .inForm globals (.obj [("paths", .arr (paths.map Path.toJson))]) items

/-! ## Report -/

/-- The most rows of a table. -/
def rowLimit : Nat := 50

def findingRow (f : Finding) : List String :=
  [Console.severity f.risk.severity, f.risk.name, f.description,
    Console.shorten f.principal 60 Console.ellipsis]

/-- The part of a report on what is risky. -/
def findingItems (findings : List Finding) : List Item :=
  let extra := findings.length - rowLimit
  if findings.isEmpty then [.line "", .line "[green]No high-risk findings[/green]"]
  else [.line "", .table ⟨"High-risk findings", ["Severity", "Type", "Description", "Principal"],
      (findings.take rowLimit).map findingRow⟩] ++
    (if 0 < extra then [.line s!"[dim]... and {extra} more (use --format json)[/dim]"] else [])

/-- The part of a report on what is open to the public. -/
def publicItems (resources : List Resource) : List Item :=
  if resources.isEmpty then [.line "[green]No publicly accessible resources[/green]"]
  else .line s!"[red]{resources.length} publicly accessible resource(s):[/red]" ::
    resources.map fun r =>
      let name := r.arn.shown
      .line s!"  • {name}"

/-- The part of a report on the size of the graph. -/
def sizeItems (account : Json) (s : Sizes) : List Item :=
  let name := (account.orIfBlank "unknown").shown
  [.line s!"\n[bold cyan]Access report[/bold cyan] [dim]account {name}[/dim]\n",
    .line s!"  Principals:       {s.principals}",
    .line s!"  Resources:        {s.resources}",
    .line s!"  Allow edges:      {s.allows}",
    .line s!"  Deny edges:       {s.denies}",
    .line s!"  Trust relations:  {s.trusts}",
    .line s!"  SCPs:             {s.guardrails}\n"]

def report (globals : Globals) (fs : Files) (data : String) (highRisk : Bool) :
    Run AccessError Answer := do
  let (s, g) ← loadGraph fs data
  let exposed ← Traced.ofExcept (g.publicResources.mapError .fault)
  let findings ←
    if highRisk then Traced.ofExcept (g.findings.mapError .fault) else pure []
  Traced.note (.reported exposed.length findings.length)
  return .inForm globals
    (.obj ([("account_id", s.account), ("collected_at", .str s.collectedAt),
      ("stats", g.sizes.toJson), ("public_resources", .arr (exposed.map Resource.arn))] ++
      (if highRisk then [("findings", .arr (findings.map Finding.toJson))] else [])))
    (sizeItems s.account g.sizes ++ publicItems exposed ++
      (if highRisk then findingItems findings else []))

/-! ## What if -/

/-- A list of identifiers with a mark before each. -/
def marked (mark : String) (ids : List String) : List Item :=
  ids.map fun id => .line s!"  {mark} {id}"

def diffItems (d : AccessDiff) : List Item :=
  (if d.granted.isEmpty then []
    else .line s!"[green]NEW ACCESS GRANTED ({d.granted.length} principals):[/green]" ::
      marked "+" d.granted ++ [.line ""]) ++
  (if d.revoked.isEmpty then []
    else .line s!"[red]ACCESS REVOKED ({d.revoked.length} principals):[/red]" ::
      marked "-" d.revoked ++ [.line ""]) ++
  (if d.unchanged.isEmpty then []
    else [.line s!"[dim]UNCHANGED ACCESS ({d.unchanged.length} principals)[/dim]"]) ++
  (if d.hasChanges then [] else [.line "No changes in access"])

def diff (globals : Globals) (c : Context) (fs : Files) (before after resource action : String) :
    Run AccessError Answer := do
  let (_, graphBefore) ← loadGraph fs before
  let (_, graphAfter) ← loadGraph fs after
  let d ← orFault
    (AccessDiff.between Condition.standard c resource action graphBefore graphAfter)
  Traced.note (.compared d.granted.length d.revoked.length d.unchanged.length)
  return .inForm globals d.toJson
    (.line s!"\n[bold]Access diff for {resource}[/bold] [dim](action: {action})[/dim]\n" ::
      diffItems d)

/-- The principal of a snapshot that a policy is to be tried on. -/
def requireMember (s : Snapshot) (id : String) : Except AccessError Unit :=
  if s.principals.any fun p => p.arn.same (.str id) then .ok ()
  else .error (.unknownPrincipal id)

def test (globals : Globals) (c : Context) (fs : Files)
    (data policy principal resource action : String) : Run AccessError Answer := do
  let base ← loadSnapshot fs data
  let _ ← Traced.ofExcept (requireMember base principal)
  let d ← Traced.ofExcept (fs.loadPolicy policy)
  let changes := { Changes.none with appendPolicies := .ofList [(principal, [d])] }
  let modified ← orFault (changes.apply base)
  let before ← base.graph
  let after ← modified.graph
  let isAdmin (g : Graph) := g.permits Condition.standard ⟨"*", .str "*", c⟩ (.str principal)
  let adminAfter ← orFault (isAdmin after)
  let adminBefore ← if adminAfter then orFault (isAdmin before) else pure true
  let grantsAdmin := adminAfter && !adminBefore
  let diff ← orFault (AccessDiff.between Condition.standard c resource action before after)
  let alarm : List Item := if grantsAdmin then
    [.line "[bold red]⚠ WARNING: this policy grants full admin access (* on *)[/bold red]\n"]
    else []
  return .inForm globals
    (.obj [("principal", .str principal), ("policy_file", .str policy),
      ("grants_full_admin", .bool grantsAdmin), ("diff", diff.toJson)])
    ([.line "\n[bold cyan]Testing policy change...[/bold cyan]",
      .line s!"Principal:  {principal}",
      .line s!"New policy: {policy}\n"] ++ alarm ++ diffItems diff)

def issueItems (i : Issue) : List Item :=
  let mark := if i.kind.isWarning then "[yellow]⚠[/yellow]" else "[dim]ℹ[/dim]"
  .line s!"{mark}  {i.message}" :: i.identifiers.map fun id =>
    let name := id.shown
    .line s!"    - {name}"

def validate (globals : Globals) (fs : Files) (data : String) : Run AccessError Answer := do
  let (s, g) ← loadGraph fs data
  let issues ← orFault (s.issues Condition.standard g)
  let items : List Item :=
    if issues.isEmpty then [.line "[green]✓ No security issues detected[/green]"]
    else .line "[bold]Security issues found:[/bold]" :: issues.flatMap issueItems
  let answer := Answer.inForm globals (.obj [("issues", .arr (issues.map Issue.toJson))]) items
  return { answer with issues := !issues.isEmpty }

/-! ## The program itself -/

/-- The name and the version of the program. -/
def versionAnswer : Answer :=
  .ofItems [.line s!"[bold cyan]{programName}[/bold cyan] {programVersion}"]

/-- The answer to a query under a context. -/
def Query.answer (globals : Globals) (c : Context) (fs : Files) :
    Query → Run AccessError Answer
  | .version => pure versionAnswer
  | .whoCan data resource action => CommandLine.whoCan globals c fs data resource action
  | .canAccess data principal action resource =>
    CommandLine.canAccess globals c fs data principal action resource
  | .path data source target action bounds =>
    CommandLine.path globals c fs data source target action bounds
  | .report data highRisk => CommandLine.report globals fs data highRisk
  | .diff before after resource action =>
    CommandLine.diff globals c fs before after resource action
  | .test data policy principal resource action =>
    CommandLine.test globals c fs data policy principal resource action
  | .validate data => CommandLine.validate globals fs data

end CloudAccess.CommandLine
