import SchemaModules.Config.Basic

/-!
# Valid configurations

Bucket names become file names, so a configuration is valid only when its names are usable as such and
no two files of the output can get the same name. The defects are looked for in a fixed order, and the
first one is reported.
-/

namespace SchemaModules

/-- What is wrong with a configuration. -/
inductive ConfigDefect
  /-- The extension, without its leading dots, is not usable in a file name. -/
  | badExtension (text : String)
  /-- The default bucket or the index cannot name a file. -/
  | badFileName (name : String)
  /-- A bucket cannot name a file. -/
  | badBucketName (name : String)
  /-- Two buckets have the same name. -/
  | repeatedBucket (name : String)
  /-- A module would have the name of the index file. -/
  | indexCollision (name : String)
  deriving Repr, DecidableEq

/-- The wording of a defect. -/
def ConfigDefect.message : ConfigDefect → String
  | .badExtension text => s!"invalid extension `{text}`"
  | .badFileName name => s!"`{name}` is not a usable file name"
  | .badBucketName name => s!"bucket name `{name}` is not a usable file name"
  | .repeatedBucket name => s!"bucket `{name}` declared twice"
  | .indexCollision name => s!"bucket `{name}` collides with the index file name"

/-- Whether `c` may stand in a file name: an ASCII letter or digit, an underscore or a hyphen. -/
def isStemChar (c : Char) : Bool := c.isAlphanum || c = '_' || c = '-'

/-- Whether `name` can name a file. -/
def isFileStem (name : String) : Bool := !name.toList.isEmpty && name.toList.all isStemChar

namespace Config

/-- The first defect among buckets, where the names `seen` stand before them. -/
def bucketDefect? : List String → List Bucket → Option ConfigDefect
  | _, [] => none
  | seen, b :: rest =>
    if !isFileStem b.name then some (.badBucketName b.name)
    else if seen.contains b.name then some (.repeatedBucket b.name)
    else bucketDefect? (b.name :: seen) rest

/-- The first defect of a configuration. -/
def defect? (c : Config) : Option ConfigDefect :=
  if !isFileStem c.fileExtension then some (.badExtension c.extension)
  else if !isFileStem c.defaultBucket then some (.badFileName c.defaultBucket)
  else if !isFileStem c.indexName then some (.badFileName c.indexName)
  else match bucketDefect? [] c.buckets with
    | some d => some d
    | none => if c.moduleOrder.contains c.indexName then some (.indexCollision c.indexName) else none

/-- A configuration without a defect. -/
def Valid (c : Config) : Prop := c.defect? = none

instance (c : Config) : Decidable c.Valid := inferInstanceAs (Decidable (c.defect? = none))

end Config

end SchemaModules
