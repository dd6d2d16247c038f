import CloudAccess.Storage
import CloudAccess.Text.Closeness
import CloudAccess.Text.Control
import CloudAccess.Text.Numeral

/-!
# Command-line options

A command has options and at most one argument; a group has options and commands.  Reading goes
in two steps: `split` takes the words apart, and `check` turns them into values.

* An option is written `--name value`, `--name=value`, `-n value` or `-nvalue`; the last one of
  several counts.  After `--` there are no more options.
* Values are checked in the order in which they are given, then the argument, then the options
  that are not given.
* Names that are close to an unknown one are told with the error.
* Every command and group has the option for help; once all words are understood, it comes before
  anything that is wrong with their values.
-/

namespace CloudAccess.CommandLine

/-! ## Options -/

inductive OptionKind where
  /-- On when it is given. -/
  | flag
  | text
  | choice (words : List String)
  /-- A path that is not a directory. -/
  | file
  /-- An integer of at least one. -/
  | count
deriving DecidableEq

structure OptionSpec where
  names : List String
  kind : OptionKind
  required : Bool
  default : Option String
  /-- A variable of the environment that gives the value when the words do not. -/
  setting : Option String

namespace OptionSpec

/-- What an option is known by: its first name. -/
def key (o : OptionSpec) : String := o.names.headD ""

def isFlag (o : OptionSpec) : Bool := o.kind = .flag

end OptionSpec

/-! ## Errors -/

/-- What is wrong with the value of an option. -/
inductive ValueFlaw where
  | notChoice (value : String) (words : List String)
  | notInteger (value : String)
  | notCount (value : Int)
  | directory (path : String)

def ValueFlaw.message : ValueFlaw → String
  | notChoice value words =>
    let listed := ", ".intercalate (words.map quotedText)
    s!"{quotedText value} is not one of {listed}."
  | notInteger value => s!"{quotedText value} is not a valid integer range."
  | notCount value => s!"{intText value} is not in the range x>=1."
  | directory path => s!"File {quotedText path} is a directory."

inductive UsageError where
  | noSuchOption (name : String) (near : List String)
  | withoutValue (name : String)
  | withValue (name : String)
  | missingOption (names : List String)
  | missingArgument (name : String)
  | invalid (names : List String) (flaw : ValueFlaw)
  | extraArguments (words : List String)
  | noSuchCommand (name : String) (near : List String)
  | missingCommand

namespace UsageError

/-- The names of an option as messages list them. -/
def listed (names : List String) : String := " / ".intercalate (names.map quotedText)

/-- What is said of the names close to an unknown one. -/
def suggestion (near : List String) : String :=
  let names := ", ".intercalate (near.map quotedText)
  match near with
  | [] => ""
  | [_] => s!" Did you mean {names}?"
  | _ => s!" (Did you mean one of: {names}?)"

def message : UsageError → String
  | noSuchOption name near => s!"No such option {quotedText name}." ++ suggestion near
  | withoutValue name => s!"Option {quotedText name} requires an argument."
  | withValue name => s!"Option {quotedText name} does not take a value."
  | missingOption names => s!"Missing option {listed names}."
  | missingArgument name => s!"Missing argument {quotedText name}."
  | invalid names flaw => s!"Invalid value for {listed names}: {flaw.message}"
  | extraArguments words =>
    let noun := if words.length = 1 then "argument" else "arguments"
    let all := " ".intercalate words
    s!"Got unexpected extra {noun} ({all})"
  | noSuchCommand name near => s!"No such command {quotedText name}." ++ suggestion near
  | missingCommand => "Missing command."

/-- Whether the usage of the command is shown with the error. -/
def showsUsage : UsageError → Bool
  | withoutValue _ | withValue _ => false
  | _ => true

/-- The whole text for a command with the given path and usage. -/
def text (path usage : String) (e : UsageError) : String :=
  (if e.showsUsage then
    s!"Usage: {path} {usage}\nTry '{path} --help' for help.\n\n"
  else "") ++ s!"Error: {Text.withoutControls e.message}\n"

end UsageError

/-- Why a command is not carried out. -/
inductive Halt where
  /-- Help was asked for. -/
  | help
  | misuse (error : UsageError)

/-! ## Taking words apart -/

/-- The options that were given with their values, and the other words. -/
structure Given where
  options : List (OptionSpec × String)
  others : List String

namespace Given

def none : Given := ⟨[], []⟩

def withOptions (os : List (OptionSpec × String)) (g : Given) : Given :=
  { g with options := os ++ g.options }

def withWord (w : String) (g : Given) : Given := { g with others := w :: g.others }

end Given

/-- The option of a name. -/
def find? (specs : List OptionSpec) (name : String) : Option OptionSpec :=
  specs.find? fun o => o.names.contains name

/-- The long names of options. -/
def longNames (specs : List OptionSpec) : List String :=
  (specs.flatMap OptionSpec.names).filter (2 < ·.length)

/-- The options of a cluster such as `-xyvalue`: those with their values, and one that still
needs its value. -/
def cluster (specs : List OptionSpec) :
    List Char → Except UsageError (List (OptionSpec × String) × Option (String × OptionSpec))
  | [] => .ok ([], none)
  | c :: rest =>
    let name := String.ofList ['-', c]
    match find? specs name with
    | none => .error (.noSuchOption name [])
    | some o =>
      if o.isFlag then (cluster specs rest).map fun (os, needy) => ((o, "") :: os, needy)
      else if rest.isEmpty then .ok ([], some (name, o))
      else .ok ([(o, String.ofList rest)], none)

/-- What a word stands for. -/
inductive Word where
  | other
  /-- No more options follow. -/
  | stop
  /-- Options, of which the last one may need the next word as its value. -/
  | options (os : List (OptionSpec × String)) (needy : Option (String × OptionSpec))

/-- What a word stands for, as far as it can be told without the next one. -/
def wordOf (specs : List OptionSpec) (word : String) : Except UsageError Word :=
  match word.toList with
  | ['-', '-'] => .ok .stop
  | '-' :: c :: rest =>
    let (name, value) := match Text.cut? '=' word.toList with
      | some (before, after) => (String.ofList before, some (String.ofList after))
      | none => (word, none)
    match (find? specs name).filter fun _ => 2 < name.length with
    | some o =>
      match o.isFlag, value with
      | true, none => .ok (.options [(o, "")] none)
      | true, some _ => .error (.withValue name)
      | false, some v => .ok (.options [(o, v)] none)
      | false, none => .ok (.options [] (some (name, o)))
    | none =>
      if c = '-' then .error (.noSuchOption name (Text.closest name (longNames specs)))
      else (cluster specs (c :: rest)).map fun (os, needy) => .options os needy
  | _ => .ok .other

/-- Takes words apart.  In a group the first other word ends the options. -/
def split (specs : List OptionSpec) (inGroup : Bool) : List String → Except UsageError Given
  | [] => .ok .none
  | word :: rest => do
    match ← wordOf specs word with
    | .stop => return ⟨[], rest⟩
    | .other =>
      if inGroup then return ⟨[], word :: rest⟩
      else return (← split specs inGroup rest).withWord word
    | .options os none => return (← split specs inGroup rest).withOptions os
    | .options os (some (name, o)) =>
      match rest with
      | [] => .error (.withoutValue name)
      | v :: rest => return (← split specs inGroup rest).withOptions (os ++ [(o, v)])

/-- The option that asks for help. -/
def helpOption : OptionSpec := ⟨["--help"], .flag, false, none, none⟩

/-- Takes the words of a command or a group apart, unless they ask for help. -/
def given (specs : List OptionSpec) (inGroup : Bool) (words : List String) : Except Halt Given :=
  match split (specs ++ [helpOption]) inGroup words with
  | .error e => .error (.misuse e)
  | .ok g => if g.options.any fun (o, _) => o.key = helpOption.key then .error .help else .ok g

/-! ## Values -/

inductive Value where
  | flag (on : Bool)
  | text (s : String)
  | count (n : Int)

/-- The values of options by their keys; an option without a value has none. -/
abbrev Values := List (String × Value)

namespace Values

def flag (vs : Values) (key : String) : Bool :=
  match vs.lookup key with
  | some (.flag on) => on
  | _ => false

def text? (vs : Values) (key : String) : Option String :=
  match vs.lookup key with
  | some (.text s) => some s
  | _ => none

def text (vs : Values) (key : String) : String := (vs.text? key).getD ""

def count (vs : Values) (key : String) : Int :=
  match vs.lookup key with
  | some (.count n) => n
  | _ => 0

end Values

/-- The value that a word denotes. -/
def valueOf (fs : Files) (kind : OptionKind) (word : String) : Except ValueFlaw Value :=
  match kind with
  | .flag => .ok (.flag true)
  | .text => .ok (.text word)
  | .choice words =>
    if words.contains word then .ok (.text word) else .error (.notChoice word words)
  | .file => if fs.isDirectory word then .error (.directory word) else .ok (.text word)
  | .count =>
    match Text.Numeral.integer? word with
    | none => .error (.notInteger word)
    | some n => if n < 1 then .error (.notCount n) else .ok (.count n)

/-- Variables of the environment. -/
abbrev Environment := List (String × String)

/-- The word that gives an option its value: the last one given, else that of the environment
unless it is empty, else the default. -/
def wordFor (env : Environment) (g : Given) (o : OptionSpec) : Option String :=
  match (g.options.filter fun (p, _) => p.key = o.key).getLast? with
  | some (_, w) => some w
  | none =>
    match (o.setting.bind fun name => List.lookup name env).filter (!·.isEmpty) with
    | some w => some w
    | none => o.default

/-- The value of one option, if it has one. -/
def checkOption (fs : Files) (env : Environment) (g : Given) (o : OptionSpec) :
    Except UsageError Values :=
  match wordFor env g o with
  | some w =>
    match valueOf fs o.kind w with
    | .ok v => .ok [(o.key, v)]
    | .error flaw => .error (.invalid o.names flaw)
  | none => if o.required then .error (.missingOption o.names) else .ok []

/-- The options that were given, in the order in which they first were. -/
def givenSpecs (g : Given) : List OptionSpec :=
  g.options.foldl (fun os (o, _) => if os.any (·.key = o.key) then os else os ++ [o]) []

/-- The values of options that were given, the argument, and the values of the others. -/
def check (fs : Files) (env : Environment) (specs : List OptionSpec) (argument : Option String)
    (g : Given) : Except UsageError (Values × Option String) := do
  let first := givenSpecs g
  let given ← first.mapM (checkOption fs env g)
  match argument, g.others with
  | some name, [] => .error (.missingArgument name)
  | _, _ => pure ()
  let others := specs.filter fun o => !first.any (·.key = o.key)
  let rest ← others.mapM (checkOption fs env g)
  let (word, extra) := match argument, g.others with
    | some _, w :: ws => (some w, ws)
    | _, ws => (none, ws)
  if !extra.isEmpty then .error (.extraArguments extra)
  return (given.flatten ++ rest.flatten, word)

end CloudAccess.CommandLine
