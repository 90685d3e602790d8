import SchemaModules.Disk.Basic
import SchemaModules.Failure
import SchemaModules.Output.Render

/-!
# Writing the output

The files are written one after the other, over what is there. The first file that cannot be written
ends the run, and the files before it stay.
-/

namespace SchemaModules.Output

variable {m : Type → Type} [Monad m]

/-- Writes files into a directory that is there, and gives their paths. -/
def writeFiles (disk : Disk m) (dir : String) : List OutputFile → m (Except Failure (List String))
  | [] => pure (.ok [])
  | file :: rest => do
    let path := Path.join dir file.fileName
    match ← disk.writeText path file.contents with
    | .error e => pure (.error (.unwritable path e))
    | .ok () =>
      match ← writeFiles disk dir rest with
      | .error f => pure (.error f)
      | .ok paths => pure (.ok (path :: paths))

/-- Writes files into a directory, which is made if it is missing, and gives their paths. -/
def write (disk : Disk m) (dir : String) (files : List OutputFile) :
    m (Except Failure (List String)) := do
  match ← disk.makeDirectories dir with
  | .error e => pure (.error (.unwritable dir e))
  | .ok () => writeFiles disk dir files

end SchemaModules.Output
