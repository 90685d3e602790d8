/-!
# Errors of file operations

Why a file or directory cannot be read, written or made.
-/

namespace SchemaModules

/-- Why a file operation fails. -/
inductive DiskError
  /-- There is nothing at the path, or a directory on the way is missing. -/
  | notFound
  /-- There is something at the path already. -/
  | alreadyExists
  /-- Something on the way is not a directory. -/
  | notDirectory
  /-- A file was needed, and a directory is there. -/
  | isDirectory
  /-- A name or the whole path is longer than the system allows. -/
  | nameTooLong
  /-- The path has a character that no path can have. -/
  | nulInPath
  /-- The file is not text. -/
  | notText
  /-- Anything else, in the system's words. -/
  | other (text : String)
  deriving Repr, DecidableEq

/-- The wording of the error. -/
def DiskError.message : DiskError → String
  | .notFound => "No such file or directory (os error 2)"
  | .alreadyExists => "File exists (os error 17)"
  | .notDirectory => "Not a directory (os error 20)"
  | .isDirectory => "Is a directory (os error 21)"
  | .nameTooLong => "File name too long (os error 36)"
  | .nulInPath => "file name contained an unexpected NUL byte"
  | .notText => "stream did not contain valid UTF-8"
  | .other text => text

end SchemaModules
