import SchemaModules.Disk.Error
import SchemaModules.Text.Split

/-!
# Paths

A path is a text whose parts are separated by slashes. Empty parts do not count; the part `.` stays
where it is, and `..` goes up. A slash at the end asks for a directory. Names and whole paths have a
greatest length, and some texts are refused as paths before anything is looked up.
-/

namespace SchemaModules.Path

/-- The greatest length of a name, in bytes. -/
def maxNameBytes : Nat := 255

/-- The greatest length of a path, in bytes. -/
def maxPathBytes : Nat := 4095

/-- Why a text is no path, whatever there is on the disk. -/
def refusal? (path : String) : Option DiskError :=
  if path.toList.contains '\x00' then some .nulInPath
  else if path.toList.isEmpty then some .notFound
  else if maxPathBytes < path.utf8ByteSize then some .nameTooLong
  else none

/-- Whether a part of a path is longer than a name may be. -/
def isTooLong (part : String) : Bool := maxNameBytes < part.utf8ByteSize

/-- The parts of a path, without empty ones. -/
def parts (path : String) : List String :=
  (Text.runs (fun c => c = '/') path.toList).map String.ofList

/-- Whether a path starts at the root. -/
def isAbsolute (path : String) : Bool := path.toList.head? = some '/'

/-- Whether a path ends with a slash. -/
def endsWithSlash (path : String) : Bool := path.toList.getLast? = some '/'

/-- The path of `name` in the directory `dir`; a name that starts at the root replaces the directory. -/
def join (dir name : String) : String :=
  if isAbsolute name || dir.toList.isEmpty then name
  else if endsWithSlash dir then dir ++ name
  else dir ++ "/" ++ name

/-- The parts of a path without the parts `.`, except one at the start. -/
def properParts (path : String) : List String :=
  match parts path with
  | [] => []
  | first :: rest => first :: rest.filter fun part => part != "."

/-- A path and the directories above it, the nearest first and the root left out. -/
def ancestors (path : String) : List String :=
  let proper := properParts path
  let root := if isAbsolute path then "/" else ""
  path :: ((List.range (proper.length - 1)).reverse.map fun n =>
    root ++ "/".intercalate (proper.take (n + 1)))

/-- The extension of a file name: what follows its last dot, unless that is where the name begins. -/
def extension? (name : String) : Option String :=
  let back := name.toList.reverse
  let tail := back.takeWhile fun c => c != '.'
  match back.drop tail.length with
  | _ :: _ :: _ => some (String.ofList tail.reverse)
  | _ => none

end SchemaModules.Path
