import SchemaModules.Cli.Run

/-!
# The program

Runs a command line on the files of the machine. Lines are coloured when the standard output is a
terminal, unless the environment says otherwise.
-/

namespace SchemaModules.Machine

/-- The number of a system error, which is reported as it is or with its sign changed. -/
def errorNumber (code : UInt32) : Nat := if code < 0x80000000 then code.toNat else (-code).toNat

/-- The error of a file operation that the system has reported. -/
def diskError : IO.Error → DiskError
  | .noFileOrDirectory .. => .notFound
  | .alreadyExists .. => .alreadyExists
  | .inappropriateType _ code _ => if errorNumber code = 21 then .isDirectory else .notDirectory
  | .invalidArgument file code text =>
    if errorNumber code = 36 then .nameTooLong
    else .other (toString (IO.Error.invalidArgument file code text))
  | e => .other (toString e)

/-- An operation on the file at a path, with its error as a value. -/
def attempt {α : Type} (path : String) (act : IO α) : IO (Except DiskError α) := do
  match Path.refusal? path with
  | some e => return .error e
  | none =>
    try
      return .ok (← act)
    catch e =>
      return .error (diskError e)

/-- The text of a file, if its bytes are text. -/
def readText (path : String) : IO (Except DiskError String) := do
  match ← attempt path (IO.FS.readBinFile path) with
  | .error e => return .error e
  | .ok bytes =>
    match String.fromUTF8? bytes with
    | some text => return .ok text
    | none => return .error .notText

/-- Whether there is a directory at a path. -/
def isDirectory (path : String) : IO Bool := do
  match ← attempt path (IO.FS.realPath path) with
  | .ok real => real.isDir
  | .error _ => return false

/-- The names of the files in a directory, as far as their paths there lead to them. -/
def fileNames (path : String) : IO (List String) := do
  let real ← IO.FS.realPath path
  let entries ← real.readDir
  let files ← entries.filterM fun entry => return !(← entry.path.isDir)
  let names := (files.map fun entry => entry.fileName).toList
  return names.filter fun name => (Path.refusal? (Path.join path name)).isNone

/-- The disk of the machine. -/
def disk : Disk IO where
  readText := readText
  writeText path text := attempt path (IO.FS.writeFile path text)
  makeDirectory path := attempt path (IO.FS.createDir path)
  isDirectory := isDirectory
  fileNames := fileNames

/-- Whether lines are coloured: always if that is forced, never if it is forbidden, else on a
terminal. -/
def wantsColor : IO Bool := do
  match ← IO.getEnv "CLICOLOR_FORCE", ← IO.getEnv "NO_COLOR", ← IO.getEnv "CLICOLOR" with
  | some forced, forbidden, _ =>
    if forced != "0" then return true
    else if forbidden.isSome then return false
    else (← IO.getStdout).isTty
  | none, some _, _ => return false
  | none, none, some "0" => return false
  | none, none, _ => (← IO.getStdout).isTty

end SchemaModules.Machine

/-- Runs the command line and ends with its exit code. -/
def main (arguments : List String) : IO UInt32 := do
  let color ← SchemaModules.Machine.wantsColor
  let outcome ← SchemaModules.Cli.run SchemaModules.Machine.disk color arguments
  IO.eprint outcome.stderr
  IO.print outcome.stdout
  return outcome.code.toUInt32
