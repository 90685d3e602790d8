import SchemaModules.Disk.Basic
import SchemaModules.Failure
import SchemaModules.Output.Render

/-!
# Checking the output

An output is current when every file is there with the text that it should have. Files that are not
there are missing, those with another text are stale. Other files in the directory that have the
extension of the output are orphaned, which does not make an output less current.
-/

namespace SchemaModules.Output

/-- How the files of a directory differ from those that should be there. -/
structure Report where
  /-- The files that are not there. -/
  missing : List String := []
  /-- The files with another text. -/
  stale : List String := []
  /-- The files that should not be there. -/
  orphaned : List String := []
  deriving Repr, DecidableEq

/-- Whether every file is there with its text. -/
def Report.isCurrent (r : Report) : Bool := r.missing.isEmpty && r.stale.isEmpty

/-- The report on a file that was read, added to the report on those after it. -/
def Report.note (r : Report) (file : OutputFile) : Option String → Report
  | none => { r with missing := file.fileName :: r.missing }
  | some text =>
    if text = file.contents then r else { r with stale := file.fileName :: r.stale }

/-- The names among `names` that have the extension and belong to none of the files, sorted. -/
def orphans (files : List OutputFile) (extension : String) (names : List String) : List String :=
  stableSort (fun a b => a ≤ b) (names.filter fun name =>
    Path.extension? name = some extension && !files.any fun f => f.fileName = name)

variable {m : Type → Type} [Monad m]

/-- Compares files with those in a directory. A file that cannot be read, though it is there, ends the
comparison. -/
def compareFiles (disk : Disk m) (dir : String) : List OutputFile → m (Except Failure Report)
  | [] => pure (.ok {})
  | file :: rest => do
    match ← disk.readText (Path.join dir file.fileName) with
    | .ok text =>
      match ← compareFiles disk dir rest with
      | .error f => pure (.error f)
      | .ok report => pure (.ok (report.note file (some text)))
    | .error .notFound =>
      match ← compareFiles disk dir rest with
      | .error f => pure (.error f)
      | .ok report => pure (.ok (report.note file none))
    | .error e => pure (.error (.uncheckable e))

/-- The report on a directory that should hold the files. -/
def check (disk : Disk m) (dir : String) (files : List OutputFile) (extension : String) :
    m (Except Failure Report) := do
  match ← compareFiles disk dir files with
  | .error f => pure (.error f)
  | .ok report =>
    if ← disk.isDirectory dir then
      let names ← disk.fileNames dir
      pure (.ok { report with orphaned := orphans files extension names })
    else pure (.ok report)

end SchemaModules.Output
