import SchemaModules.Disk.Error
import SchemaModules.Disk.Path

/-!
# Disks

A disk is what the commands need of a file system: five operations on paths. The operations may be
those of the machine, or those of a file tree that is only thought of.
-/

namespace SchemaModules

/-- The operations of a file system in the monad `m`. -/
structure Disk (m : Type → Type) where
  /-- The text of the file at a path. -/
  readText : String → m (Except DiskError String)
  /-- Makes a file with the given text, or replaces the text of a file. -/
  writeText : String → String → m (Except DiskError Unit)
  /-- Makes one directory. -/
  makeDirectory : String → m (Except DiskError Unit)
  /-- Whether there is a directory at a path. -/
  isDirectory : String → m Bool
  /-- The names of the files in a directory, as far as their paths there lead to them, in any order. -/
  fileNames : String → m (List String)

namespace Disk

variable {m : Type → Type} [Monad m]

/-- Makes the first of the paths as a directory, and before it those that follow if they are missing.
A directory that is there already will do. -/
def makeAlong (disk : Disk m) : List String → m (Except DiskError Unit)
  | [] => pure (.ok ())
  | path :: above => do
    match ← disk.makeDirectory path with
    | .ok () => pure (.ok ())
    | .error .notFound =>
      match ← disk.makeAlong above with
      | .error e => pure (.error e)
      | .ok () =>
        match ← disk.makeDirectory path with
        | .ok () => pure (.ok ())
        | .error e => if ← disk.isDirectory path then pure (.ok ()) else pure (.error e)
    | .error e => if ← disk.isDirectory path then pure (.ok ()) else pure (.error e)

/-- Makes a directory and all that are missing above it. Nothing is done for an empty path. -/
def makeDirectories (disk : Disk m) (path : String) : m (Except DiskError Unit) :=
  if path.toList.isEmpty then pure (.ok ()) else disk.makeAlong (Path.ancestors path)

end Disk

end SchemaModules
