/-!
# Command lines

A command line names a command and gives its switches. A switch has a long name after two hyphens, and
some have a letter that may follow one hyphen. Letters may be joined, and the last of them may have a
value. A value follows its switch as the next argument, after an equals sign, or right after the
letter. A switch that is not known, is given twice or lacks its value is refused, and so is anything
that is neither a switch nor a value.

Requests for help are left out. What answers them is a page of usage that no command depends on.
-/

namespace SchemaModules.Cli

/-- How reports are written. -/
inductive Format
  /-- For people. -/
  | text
  /-- For programs. -/
  | json
  deriving Repr, DecidableEq

/-- What a command reads. -/
structure Input where
  /-- The path of the source. -/
  source : String
  /-- The path of the configuration, if one is given. -/
  config : Option String
  deriving Repr, DecidableEq

/-- The arguments of the command that writes the modules. -/
structure SplitArguments where
  /-- What it reads. -/
  input : Input
  /-- The directory for the output. -/
  out : String
  /-- Whether nothing is to be written. -/
  dryRun : Bool
  /-- Whether import cycles are a failure. -/
  denyCycles : Bool
  /-- How the report is written. -/
  format : Format
  /-- Whether warnings and the summary are left out. -/
  quiet : Bool
  deriving Repr, DecidableEq

/-- A command with its arguments. -/
inductive Command
  /-- Write the modules. -/
  | split (arguments : SplitArguments)
  /-- Compare the modules with those in the directory `out`. -/
  | check (input : Input) (out : String)
  /-- Show what the modules would be. -/
  | plan (input : Input) (format : Format)
  /-- Show the standard configuration. -/
  | config
  /-- Show the version. -/
  | version
  deriving Repr, DecidableEq

/-- A switch of some command. -/
inductive Switch
  /-- The path of the source. -/
  | source
  /-- The path of the configuration. -/
  | config
  /-- The directory of the output. -/
  | out
  /-- Nothing is to be written. -/
  | dryRun
  /-- Import cycles are a failure. -/
  | denyCycles
  /-- How the report is written. -/
  | format
  /-- Warnings and the summary are left out. -/
  | quiet
  deriving Repr, DecidableEq

namespace Switch

/-- The name after two hyphens. -/
def long : Switch → String
  | .source => "source"
  | .config => "config"
  | .out => "out"
  | .dryRun => "dry-run"
  | .denyCycles => "deny-cycles"
  | .format => "format"
  | .quiet => "quiet"

/-- The letter after one hyphen. -/
def letter? : Switch → Option Char
  | .source => some 's'
  | .config => some 'c'
  | .out => some 'o'
  | .quiet => some 'q'
  | _ => none

/-- Whether the switch has a value. -/
def hasValue : Switch → Bool
  | .dryRun | .denyCycles | .quiet => false
  | _ => true

end Switch

/-- The switches given on a command line, with their values. -/
abbrev Given := List (Switch × String)

/-- The switches that an argument with two hyphens gives, and the switch whose value is to follow. -/
def readLong (allowed : List Switch) (text : List Char) : Option (Given × Option Switch) :=
  let name := text.takeWhile fun c => c != '='
  match allowed.find? fun s => s.long.toList = name with
  | none => none
  | some s =>
    match text.drop name.length, s.hasValue with
    | [], true => some ([], some s)
    | [], false => some ([(s, "")], none)
    | _ :: value, true => some ([(s, String.ofList value)], none)
    | _ :: _, false => none

/-- The switches that joined letters give, and the switch whose value is to follow. -/
def readLetters (allowed : List Switch) : List Char → Option (Given × Option Switch)
  | [] => some ([], none)
  | c :: cs =>
    match allowed.find? fun s => s.letter? = some c with
    | none => none
    | some s =>
      if s.hasValue then
        match cs with
        | [] => some ([], some s)
        | '=' :: value => some ([(s, String.ofList value)], none)
        | value => some ([(s, String.ofList value)], none)
      else (readLetters allowed cs).map fun r => ((s, "") :: r.1, r.2)

/-- The switches that an argument gives, and the switch whose value is to follow. -/
def readArgument (allowed : List Switch) (argument : String) : Option (Given × Option Switch) :=
  match argument.toList with
  | '-' :: '-' :: text => readLong allowed text
  | '-' :: c :: cs => readLetters allowed (c :: cs)
  | _ => none

/-- Whether an argument cannot be the value of the switch before it. A lone hyphen can. -/
def isDashed (argument : String) : Bool :=
  match argument.toList with
  | '-' :: _ :: _ => true
  | _ => false

/-- The switches that arguments give, where the value of `pending` is to come first. Two lone hyphens
end the switches, and nothing may follow. -/
def readSwitches (allowed : List Switch) : Option Switch → List String → Option Given
  | none, [] => some []
  | some _, [] => none
  | some s, value :: rest =>
    if isDashed value then none
    else (readSwitches allowed none rest).map fun given => (s, value) :: given
  | none, argument :: rest =>
    if argument = "--" then if rest.isEmpty then some [] else none
    else match readArgument allowed argument with
      | none => none
      | some (now, pending) => (readSwitches allowed pending rest).map fun given => now ++ given

/-- Whether no switch is given twice. -/
def noRepeats : Given → Bool
  | [] => true
  | (s, _) :: rest => rest.all (fun g => g.1 != s) && noRepeats rest

/-- The switches that arguments give, each at most once. -/
def switches? (allowed : List Switch) (arguments : List String) : Option Given :=
  match readSwitches allowed none arguments with
  | some given => if noRepeats given then some given else none
  | none => none

/-- The path that a switch gives, which must not be empty. -/
def path? (given : Given) (s : Switch) : Option String :=
  match given.lookup s with
  | some path => if path.toList.isEmpty then none else some path
  | none => none

/-- The path that a switch gives, if it is given. -/
def optionalPath? (given : Given) (s : Switch) : Option (Option String) :=
  match given.lookup s with
  | some path => if path.toList.isEmpty then none else some (some path)
  | none => some none

/-- The format that is asked for; text if none is. -/
def format? (given : Given) : Option Format :=
  match given.lookup .format with
  | none => some .text
  | some name =>
    if name = "text" then some .text else if name = "json" then some .json else none

/-- What a command reads. -/
def input? (given : Given) : Option Input := do
  let source ← path? given .source
  let config ← optionalPath? given .config
  some { source, config }

/-- The arguments of the command that writes the modules. -/
def split? (arguments : List String) : Option Command := do
  let given ← switches? [.source, .config, .out, .dryRun, .denyCycles, .format, .quiet] arguments
  let input ← input? given
  let out ← path? given .out
  let format ← format? given
  let dryRun := (given.lookup .dryRun).isSome
  let denyCycles := (given.lookup .denyCycles).isSome
  let quiet := (given.lookup .quiet).isSome
  some (.split { input, out, dryRun, denyCycles, format, quiet })

/-- The arguments of the command that compares the modules. -/
def check? (arguments : List String) : Option Command := do
  let given ← switches? [.source, .config, .out] arguments
  let input ← input? given
  let out ← path? given .out
  some (.check input out)

/-- The arguments of the command that shows the modules. -/
def plan? (arguments : List String) : Option Command := do
  let given ← switches? [.source, .config, .format] arguments
  let input ← input? given
  let format ← format? given
  some (.plan input format)

/-- The command that shows the standard configuration, which has no switches. -/
def config? (arguments : List String) : Option Command :=
  (switches? [] arguments).map fun _ => .config

/-- The command of a command line; none if the command line is refused. A request for help (`help`, or
`--help` or `-h` here or among the arguments of a command) is none of the commands and is refused like
anything that is not known, where the full program shows its usage and ends with code 0. -/
def command? : List String → Option Command
  | [] => none
  | name :: arguments =>
    if name = "split" then split? arguments
    else if name = "check" then check? arguments
    else if name = "plan" then plan? arguments
    else if name = "config" then config? arguments
    else if name = "--version" || "-V".toList.isPrefixOf name.toList then some .version
    else none

end SchemaModules.Cli
