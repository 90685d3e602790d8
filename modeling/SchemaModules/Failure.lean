import SchemaModules.Catalog.Extract
import SchemaModules.Config.Error
import SchemaModules.Disk.Error

/-!
# Failures

Why a command fails. A failure ends the command; what it has done before stays done.
-/

namespace SchemaModules

/-- The cause of a failed command. -/
inductive Failure
  /-- The source cannot be read. -/
  | unreadableSource (path : String) (cause : DiskError)
  /-- The source has no catalog. -/
  | extraction (cause : ExtractError)
  /-- There is no valid configuration. -/
  | configuration (cause : ConfigError)
  /-- A file or directory of the output cannot be made. -/
  | unwritable (path : String) (cause : DiskError)
  /-- A file of the output cannot be compared. -/
  | uncheckable (cause : DiskError)
  /-- The modules import each other in circles, which was not to be. -/
  | importCycles (cycles : List (List String))
  /-- Files of the output are missing or out of date. -/
  | staleOutput (missing stale : List String)
  deriving Repr, DecidableEq

namespace Failure

/-- What is wrong with an output: the files that are missing and those that are out of date. -/
def staleParts (missing stale : List String) : List String :=
  (if missing.isEmpty then [] else ["missing " ++ ", ".intercalate missing]) ++
    (if stale.isEmpty then [] else ["out of date " ++ ", ".intercalate stale])

/-- The wording of a failure. -/
def message : Failure → String
  | .unreadableSource path cause => "Source unreadable: " ++ path ++ ": " ++ cause.message
  | .extraction cause => cause.message
  | .configuration cause => "Config error: " ++ cause.message
  | .unwritable path cause => "Write failure: " ++ path ++ ": " ++ cause.message
  | .uncheckable cause => "I/O error: " ++ cause.message
  | .importCycles cycles =>
    "Import cycle between modules: " ++ "; ".intercalate (cycles.map fun c => " -> ".intercalate c)
  | .staleOutput missing stale =>
    "Stale output: " ++ "; ".intercalate (staleParts missing stale) ++
      " (run `schemasplit split` to regenerate)"

end Failure

end SchemaModules
