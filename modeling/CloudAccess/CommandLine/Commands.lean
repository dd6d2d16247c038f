import CloudAccess.CommandLine.Options
import CloudAccess.Request

/-!
# Commands

The options of the program and of each command, and what a command line asks for: `Globals` for
every command, and one `Query`.
-/

namespace CloudAccess.CommandLine

/-- What the program is called. -/
def programName : String := "accessmap"

def programVersion : String := "0.1.0"

/-! ## Options -/

def flagOption (name : String) : OptionSpec := ⟨[name], .flag, false, none, none⟩

def textOption (names : List String) : OptionSpec := ⟨names, .text, false, none, none⟩

def requiredText (names : List String) : OptionSpec := ⟨names, .text, true, none, none⟩

/-- The file that is read when none is named. -/
def defaultData : String := "accessmap-snapshot.json"

/-- The variable that names the file to read. -/
def dataVariable : String := "ACCESSMAP_DATA"

def dataOption : OptionSpec :=
  ⟨["--data", "-d"], .file, false, some defaultData, some dataVariable⟩

/-- A text that stands for anything unless it is given. -/
def anyText (names : List String) : OptionSpec := ⟨names, .text, false, some "*", none⟩

def countOption (name : String) (default : Int) : OptionSpec :=
  ⟨[name], .count, false, some (intText default), none⟩

/-- The options of the program itself. -/
def globalOptions : List OptionSpec := [
  flagOption "--debug",
  ⟨["--format"], .choice ["text", "json"], false, some "text", none⟩,
  flagOption "--no-color",
  textOption ["--source-ip"],
  flagOption "--mfa",
  textOption ["--org-id"],
  textOption ["--principal-org-id"],
  textOption ["--principal-arn"],
  ⟨["--session-policy"], .file, false, none, none⟩]

/-- What the options of the program say. -/
structure Globals where
  debug : Bool
  json : Bool
  noColor : Bool
  sessionPolicy : Option String
  /-- The facts of requests, without the policy of the session. -/
  context : Context

def Globals.ofValues (vs : Values) : Globals where
  debug := vs.flag "--debug"
  json := vs.text "--format" = "json"
  noColor := vs.flag "--no-color"
  sessionPolicy := (vs.text? "--session-policy").filter (!·.isEmpty)
  context := { Context.empty with
    sourceIp := vs.text? "--source-ip"
    mfa := vs.flag "--mfa"
    organization := vs.text? "--org-id"
    principalOrganization := vs.text? "--principal-org-id"
    principalArn := vs.text? "--principal-arn" }

/-! ## Commands -/

inductive Command where
  | version | whoCan | canAccess | path | report | diff | test | validate
deriving DecidableEq

namespace Command

def name : Command → String
  | version => "version"
  | whoCan => "who-can"
  | canAccess => "can-access"
  | path => "path"
  | report => "report"
  | diff => "diff"
  | test => "test"
  | validate => "validate"

/-- Whether a command belongs to the group for what-if questions. -/
def simulates : Command → Bool
  | diff | test | validate => true
  | _ => false

/-- The commands of the program, or those of the group. -/
def list (simulated : Bool) : List Command :=
  [version, whoCan, canAccess, path, report, diff, test, validate].filter (·.simulates = simulated)

/-- The name of the group. -/
def group : String := "simulate"

/-- The names that a word for a command may be close to, in the program or in the group: those
of the commands, and outside the group also its own. -/
def names (simulated : Bool) : List String :=
  (list simulated).map name ++ if simulated then [] else [group]

/-- The name with that of the group before it. -/
def fullName (c : Command) : String := if c.simulates then s!"{group} {c.name}" else c.name

/-- The name of the argument, for the command that has one. -/
def argument? : Command → Option String
  | whoCan => some "RESOURCE"
  | _ => none

def usage (c : Command) : String :=
  match c.argument? with
  | some name => s!"[OPTIONS] {name}"
  | none => "[OPTIONS]"

def options : Command → List OptionSpec
  | version => []
  | whoCan => [requiredText ["--action", "-a"], dataOption]
  | canAccess => [requiredText ["--principal", "-p"], requiredText ["--action", "-a"],
      requiredText ["--resource", "-r"], dataOption]
  | path => [requiredText ["--from"], requiredText ["--to"], requiredText ["--action", "-a"],
      countOption "--max-hops" Graph.Bounds.default.maxHops,
      countOption "--max-paths" Graph.Bounds.default.maxPaths, dataOption]
  | report => [flagOption "--high-risk", dataOption]
  | diff => [⟨["--before"], .file, true, none, none⟩, ⟨["--after"], .file, true, none, none⟩,
      anyText ["--resource", "-r"], anyText ["--action", "-a"]]
  | test => [dataOption, ⟨["--add-policy"], .file, true, none, none⟩,
      requiredText ["--principal", "-p"], anyText ["--resource", "-r"], anyText ["--action", "-a"]]
  | validate => [dataOption]

end Command

/-! ## Queries -/

/-- What a command line asks for. -/
inductive Query where
  | version
  | whoCan (data resource action : String)
  | canAccess (data principal action resource : String)
  | path (data source target action : String) (bounds : Graph.Bounds)
  | report (data : String) (highRisk : Bool)
  | diff (before after resource action : String)
  | test (data policy principal resource action : String)
  | validate (data : String)

/-- The query that the values of a command's options make. -/
def Query.ofValues (vs : Values) (argument : Option String) : Command → Query
  | .version => .version
  | .whoCan => .whoCan (vs.text "--data") (argument.getD "") (vs.text "--action")
  | .canAccess => .canAccess (vs.text "--data") (vs.text "--principal") (vs.text "--action")
      (vs.text "--resource")
  | .path => .path (vs.text "--data") (vs.text "--from") (vs.text "--to") (vs.text "--action")
      ⟨vs.count "--max-hops", vs.count "--max-paths"⟩
  | .report => .report (vs.text "--data") (vs.flag "--high-risk")
  | .diff => .diff (vs.text "--before") (vs.text "--after") (vs.text "--resource")
      (vs.text "--action")
  | .test => .test (vs.text "--data") (vs.text "--add-policy") (vs.text "--principal")
      (vs.text "--resource") (vs.text "--action")
  | .validate => .validate (vs.text "--data")

end CloudAccess.CommandLine
