import SchemaModules.Config.Validity
import SchemaModules.Disk.Error
import SchemaModules.Toml.Fault

/-!
# Errors of configuration files

A configuration is read from a file in three steps, each of which may fail: the file must be readable,
it must hold a configuration, and the configuration must be valid.
-/

namespace SchemaModules

/-- Why there is no valid configuration. -/
inductive ConfigError
  /-- The file cannot be read. -/
  | unreadable (path : String) (cause : DiskError)
  /-- The text of the file is no configuration. -/
  | faulty (fault : Toml.Fault)
  /-- The configuration has a defect. -/
  | invalid (defect : ConfigDefect)
  deriving Repr, DecidableEq

/-- The wording of the error. -/
def ConfigError.message : ConfigError → String
  | .unreadable path cause => "cannot read " ++ path ++ ": " ++ cause.message
  | .faulty fault => fault.message
  | .invalid defect => defect.message

end SchemaModules
