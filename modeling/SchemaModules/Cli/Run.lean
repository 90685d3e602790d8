import SchemaModules.Cli.Arguments
import SchemaModules.Cli.Style
import SchemaModules.Config.Toml
import SchemaModules.Output.Check
import SchemaModules.Output.Write

/-!
# Commands

What each command does and says. Reports go to the standard output, warnings and failures to the
standard error. A command ends with code 0, one that fails with 1, and a refused command line with 2.
-/

namespace SchemaModules.Cli

/-- What a command says and how it ends. -/
structure Outcome where
  /-- The exit code. -/
  code : Nat := 0
  /-- The text on the standard output. -/
  stdout : String := ""
  /-- The text on the standard error. -/
  stderr : String := ""
  deriving Repr, DecidableEq

/-- The outcome of a command that fails after it has said `before` on the standard error. -/
def failed (color : Bool) (f : Failure) (before : String) : Outcome :=
  { code := 1, stderr := before ++ errorLine color f.message }

/-- The name and version of the program. -/
def versionLine : String := "schemasplit 0.3.1\n"

/-- What is said about a command line that is refused. -/
def usageLine : String :=
  "usage: schemasplit split|check|plan|config [--source FILE] [--config FILE] [--out DIR]\n"

section Texts

variable (color : Bool)

/-- The lines for warnings. -/
def warningLines (warnings : List Warning) : String :=
  String.join (warnings.map (warningLine color))

/-- The manifest as a report for programs. -/
def manifestText (source : String) (p : Partition) (files : List OutputFile) : String :=
  (Output.manifest source p files).toText ++ "\n"

/-- The line that sums up a run. -/
def summaryLine (a : SplitArguments) (p : Partition) (files : List OutputFile) : String :=
  let verb := if a.dryRun then "would write" else "wrote"
  paint color .green "✓" ++ s!" {p.catalog.entities.length} entities, " ++
    s!"{p.catalog.aliases.length} aliases -> {p.modules.length} modules; " ++
    verb ++ s!" {files.length} files to " ++ a.out ++ "\n"

/-- The report of a run. -/
def splitReport (a : SplitArguments) (p : Partition) (files : List OutputFile) : String :=
  match a.format with
  | .json => manifestText a.input.source p files
  | .text => if a.quiet then "" else summaryLine color a p files

/-- The lines for files that are orphaned. -/
def orphanLines (names : List String) : String :=
  String.join (names.map fun name =>
    paint color .yellow "orphaned:" ++ " " ++ name ++ " is not produced by this schema\n")

/-- The line that says that an output is current. -/
def currentLine (input : Input) (out : String) (files : List OutputFile) : String :=
  paint color .green "✓" ++ s!" {files.length} files in " ++ out ++ " match " ++ input.source ++ "\n"

/-- The lines for a module: its name, its symbols and its imports. -/
def moduleLines (p : Partition) (m : Module) : String :=
  let symbolLine := fun name =>
    let kind := ((p.catalog.get? name).map Symbol.kind).getD "?"
    "  " ++ name ++ " " ++ paint color .grey ("[" ++ kind ++ "]") ++ "\n"
  let importLine := fun (i : Reference.Import) =>
    "  " ++ paint color .cyan "▸" ++ " " ++ ", ".intercalate i.names ++ " from " ++
      paint color .cyan i.owner ++ "\n"
  paint color .boldWhite m.name ++ s!" ({m.owned.length} symbols)\n" ++
    String.join (m.owned.map symbolLine) ++ String.join ((p.importsOf m.name).map importLine)

end Texts

section Commands

variable {m : Type → Type} [Monad m] (disk : Disk m) (color : Bool)

/-- The configuration at a path, or the standard one if there is no path. -/
def loadConfig : Option String → m (Except Failure Config)
  | none => pure (.ok .standard)
  | some path => do
    match ← disk.readText path with
    | .error e => pure (.error (.configuration (.unreadable path e)))
    | .ok text =>
      match Config.ofText text with
      | .error e => pure (.error (.configuration e))
      | .ok config => pure (.ok config)

/-- The text of the source at a path. -/
def readSource (path : String) : m (Except Failure String) := do
  match ← disk.readText path with
  | .error e => pure (.error (.unreadableSource path e))
  | .ok text => pure (.ok text)

/-- The configuration and the partition that a command works on. -/
def load (input : Input) : m (Except Failure (Config × Partition)) := do
  match ← loadConfig disk input.config with
  | .error f => pure (.error f)
  | .ok config =>
    match ← readSource disk input.source with
    | .error f => pure (.error f)
    | .ok text =>
      match Partition.ofSource text input.source config with
      | .error e => pure (.error (.extraction e))
      | .ok p => pure (.ok (config, p))

/-- Writes the modules. -/
def runSplit (a : SplitArguments) : m Outcome := do
  match ← load disk a.input with
  | .error f => pure (failed color f "")
  | .ok (config, p) =>
    if a.denyCycles && !p.cycles.isEmpty then pure (failed color (.importCycles p.cycles) "")
    else
      let files := Output.render p config
      let written ← if a.dryRun then pure (.ok []) else Output.write disk a.out files
      match written with
      | .error f => pure (failed color f "")
      | .ok _ =>
        pure {
          stdout := splitReport color a p files
          stderr := if a.quiet then "" else warningLines color p.warnings }

/-- Compares the modules with those in a directory. -/
def runCheck (input : Input) (out : String) : m Outcome := do
  match ← load disk input with
  | .error f => pure (failed color f "")
  | .ok (config, p) =>
    let files := Output.render p config
    match ← Output.check disk out files config.fileExtension with
    | .error f => pure (failed color f "")
    | .ok report =>
      let stderr := orphanLines color report.orphaned
      if report.isCurrent then pure { stdout := currentLine color input out files, stderr }
      else pure (failed color (.staleOutput report.missing report.stale) stderr)

/-- Shows what the modules would be. -/
def runPlan (input : Input) (format : Format) : m Outcome := do
  match ← load disk input with
  | .error f => pure (failed color f "")
  | .ok (config, p) =>
    match format with
    | .json => pure { stdout := manifestText input.source p (Output.render p config) }
    | .text =>
      pure {
        stdout := String.join (p.modules.map (moduleLines color p))
        stderr := warningLines color p.warnings }

/-- Runs a command. -/
def runCommand : Command → m Outcome
  | .split a => runSplit disk color a
  | .check input out => runCheck disk color input out
  | .plan input format => runPlan disk color input format
  | .config => pure { stdout := Config.standard.toToml }
  | .version => pure { stdout := versionLine }

/-- Runs a command line. -/
def run (arguments : List String) : m Outcome :=
  match command? arguments with
  | some command => runCommand disk color command
  | none => pure { code := 2, stderr := usageLine }

end Commands

end SchemaModules.Cli
