import CloudAccess.CommandLine.Answer

/-!
# The program

`run` takes the words of a command line, the environment and the files, and gives all that the
program puts out.

A command line that cannot be understood ends in 2, one that asks for help in 0.  A snapshot of
which no graph can be made ends in 2 as well; an identifier that is not in the graph ends in 3, and
any other error in 1, as does a validation that finds issues.
-/

namespace CloudAccess.CommandLine

open Console (Item)

/-- What a run puts out. -/
structure Outcome where
  exit : Nat
  stdout : String
  shown : List Item
  /-- The log, and whether all of it is to be seen. -/
  events : List Event
  debug : Bool
  /-- What is wrong with the command line. -/
  usage : String
  noColor : Bool

namespace Outcome

/-- The events that are to be seen. -/
def visible (o : Outcome) : List Event :=
  o.events.filter fun e => o.debug || Severity.warning.rank ≤ e.severity.rank

/-- The lines on the error output, with the time at which they are written. -/
def stderr (time : String) (o : Outcome) : String :=
  let line (e : Event) := s!"{time} [{e.severity.name}] {e.origin}: {e.message}\n"
  String.join (o.visible.map line) ++ o.usage

end Outcome

/-- The name by which a command is called. -/
def pathTo (command : String) : String :=
  if command.isEmpty then programName else s!"{programName} {command}"

/-! ## Manuals -/

/-- What is said about the use of a command or a group. -/
structure Manual where
  /-- The name by which it is called. -/
  command : String
  usage : String
  options : List OptionSpec
  /-- The names of the commands of a group. -/
  commands : List String

namespace Manual

/-- How a group is used. -/
def groupUsage : String := "[OPTIONS] COMMAND [ARGS]..."

/-- The manual of the program. -/
def program : Manual := ⟨"", groupUsage, globalOptions, Command.names false⟩

/-- The manual of the group. -/
def group : Manual := ⟨Command.group, groupUsage, [], Command.names true⟩

def ofCommand (c : Command) : Manual := ⟨c.fullName, c.usage, c.options, []⟩

/-- The text of help. -/
def help (m : Manual) : String :=
  let part (title : String) (lines : List String) : String :=
    if lines.isEmpty then ""
    else s!"\n{title}:\n" ++ String.join (lines.map fun line => s!"  {line}\n")
  s!"Usage: {pathTo m.command} {m.usage}\n" ++
    part "Options" ((m.options ++ [helpOption]).map fun o => ", ".intercalate o.names) ++
    part "Commands" m.commands

end Manual

/-! ## Errors -/

/-- The exit code of an error. -/
def exitOf : AccessError → Nat
  | .malformed _ => 2
  | .unknownPrincipal _ | .unknownResource _ => 3
  | _ => 1

/-- What is said of an error. -/
def errorText : AccessError → String
  | .malformed m => s!"cannot build graph: {m.message}"
  | e => e.message

/-- The heading of an error. -/
def errorHeading : AccessError → String
  | .malformed _ => "✗ Construction failed:"
  | .unknownPrincipal _ | .unknownResource _ => "✗ Query failed:"
  | _ => "✗ Error:"

/-- The outcome of a command that ended in an error. -/
def failed (globals : Globals) (command : String) (trace : List Event) (e : AccessError) :
    Outcome where
  exit := exitOf e
  stdout := ""
  shown := [.line s!"[red]{errorHeading e}[/red] {errorText e}"]
  events := trace ++ [.failed command (errorText e)]
  debug := globals.debug
  usage := ""
  noColor := globals.noColor

/-- The outcome of a command line that is not carried out, with the options read so far. -/
def halted (globals : Option Globals) (m : Manual) (h : Halt) : Outcome :=
  let (exit, stdout, usage) := match h with
    | .help => (0, m.help, "")
    | .misuse e => (2, "", e.text (pathTo m.command) m.usage)
  { exit, stdout, usage
    shown := []
    events := []
    debug := false
    noColor := (globals.map Globals.noColor).getD false }

/-- The outcome of a command. -/
def finished (globals : Globals) (command : String) (run : Run AccessError Answer) : Outcome :=
  match run.outcome with
  | .error e => failed globals command run.trace e
  | .ok a =>
    { exit := if a.issues then 1 else 0
      stdout := match a.json with
        | some v => Json.writeIndented v ++ "\n"
        | none => ""
      shown := a.shown
      events := run.trace
      debug := globals.debug
      usage := ""
      noColor := globals.noColor }

/-! ## Running -/

/-- What the words after the program's options begin with. -/
inductive Step where
  | command (c : Command) (words : List String)
  | group (words : List String)

/-- The command of that name. -/
def commandOf? (simulated : Bool) (name : String) : Option Command :=
  (Command.list simulated).find? (·.name = name)

/-- The command, or the group, that the first word names. -/
def step? : List String → Option Step
  | [] => none
  | name :: words =>
    if name = Command.group then some (.group words)
    else (commandOf? false name).map (.command · words)

/-- The command of the group that the first word names, and the words after it. -/
def groupCommand? : List String → Option (Command × List String)
  | [] => none
  | name :: words => (commandOf? true name).map (·, words)

/-- The options of a group, and the words after them. -/
def optionsOf (fs : Files) (env : Environment) (specs : List OptionSpec) (words : List String) :
    Except Halt (Values × List String) := do
  let g ← given specs true words
  let (values, _) ← (check fs env specs none { g with others := [] }).mapError .misuse
  return (values, g.others)

/-- What is wrong with words of which the first should name a command of a group, and does not.
They may be meant as more options of the group; what is wrong with these is told first. -/
def noCommand (fs : Files) (env : Environment) (m : Manual) (words : List String) : Halt :=
  match words with
  | [] => .misuse .missingCommand
  | name :: _ =>
    match optionsOf fs env m.options words with
    | .error h => h
    | .ok _ => .misuse (.noSuchCommand name (Text.closest name m.commands))

/-- The context of all requests, with the policy of the session. -/
def contextOf (fs : Files) (globals : Globals) : Except AccessError Context := do
  match globals.sessionPolicy with
  | none => return globals.context
  | some path =>
    let d ← fs.loadPolicy path
    return { globals.context with session := some d }

/-- The query that the words after a command make. -/
def queryOf (fs : Files) (env : Environment) (c : Command) (words : List String) :
    Except Halt Query := do
  let g ← given c.options false words
  let (values, argument) ← (check fs env c.options c.argument? g).mapError .misuse
  return .ofValues values argument c

/-- Runs one command. -/
def runCommand (fs : Files) (env : Environment) (globals : Globals) (context : Context)
    (c : Command) (words : List String) : Outcome :=
  match queryOf fs env c words with
  | .error h => halted globals (.ofCommand c) h
  | .ok q => finished globals c.fullName (q.answer globals context fs)

/-- Runs the command of the group that the words name. -/
def runGroup (fs : Files) (env : Environment) (globals : Globals) (context : Context)
    (words : List String) : Outcome :=
  match optionsOf fs env Manual.group.options words with
  | .error h => halted globals .group h
  | .ok (_, rest) =>
    match groupCommand? rest with
    | some (c, words) => runCommand fs env globals context c words
    | none => halted globals .group (noCommand fs env .group rest)

/-- Runs the program. -/
def run (words : List String) (env : Environment) (fs : Files) : Outcome :=
  match optionsOf fs env globalOptions words with
  | .error h => halted none .program h
  | .ok (values, rest) =>
    let globals := Globals.ofValues values
    match step? rest with
    | none => halted none .program (noCommand fs env .program rest)
    | some step =>
      match contextOf fs globals with
      | .error e => failed globals "main" [] e
      | .ok context =>
        match step with
        | .command c words => runCommand fs env globals context c words
        | .group words => runGroup fs env globals context words

/-! ## Files -/

/-- The paths among the values of some options. -/
def pathsAmong (env : Environment) (specs : List OptionSpec) (g : Given) : List String :=
  (specs.filter (·.kind = .file)).filterMap (wordFor env g)

/-- The paths among the values of a command's options. -/
def pathsOf (env : Environment) (c : Command) (words : List String) : List String :=
  match split c.options false words with
  | .ok given => pathsAmong env c.options given
  | .error _ => []

/-- The paths among the values of a group command's options. -/
def pathsOfGroup (env : Environment) (words : List String) : List String :=
  match split [] true words with
  | .ok given =>
    match groupCommand? given.others with
    | some (c, words) => pathsOf env c words
    | none => []
  | .error _ => []

/-- The files that a run may look at. -/
def mentionedFiles (words : List String) (env : Environment) : List String :=
  match split globalOptions true words with
  | .error _ => []
  | .ok given =>
    pathsAmong env globalOptions given ++
    match step? given.others with
    | some (.command c words) => pathsOf env c words
    | some (.group words) => pathsOfGroup env words
    | none => []

end CloudAccess.CommandLine
