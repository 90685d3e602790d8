import SchemaModules.Config.Error
import SchemaModules.Toml.Document
import SchemaModules.Toml.Writer

/-!
# Configurations as TOML

A configuration file gives some of the fields of a configuration; those that it leaves out are those of
the standard configuration. Buckets are an array of tables, or an array of inline tables, or an array of
arrays that hold the name and the entities in this order. A field that is not known or has a value of
another kind is not accepted. A configuration is written with all its fields.
-/

namespace SchemaModules

open Toml

namespace Config

/-- The entries of a table, with keys of one part each. -/
abbrev Fields := List (String × Toml.Value)

/-- The entries before the first bucket and those of each bucket; none if a key has several parts or
the document has another table. -/
def layout : List Statement → Option (Fields × List Fields)
  | [] => some ([], [])
  | .entry [key] value :: rest =>
    (layout rest).map fun (top, buckets) => ((key, value) :: top, buckets)
  | .element ["bucket"] :: rest => (layout rest).map fun (own, buckets) => ([], own :: buckets)
  | _ :: _ => none

/-- Whether the keys of the fields are among `known`. -/
def allKnown (known : List String) (fields : Fields) : Bool := fields.all fun f => known.contains f.1

/-- A string. -/
def stringOf? : Toml.Value → Option String
  | .string s => some s
  | _ => none

/-- A truth value. -/
def booleanOf? : Toml.Value → Option Bool
  | .boolean b => some b
  | _ => none

/-- A list of strings. -/
def stringsOf? : Toml.Value → Option (List String)
  | .array items => items.mapM stringOf?
  | _ => none

/-- The field called `key` as `read` takes it, or `fallback` if there is none. -/
def fieldOr {α : Type} (fields : Fields) (key : String) (read : Toml.Value → Option α)
    (fallback : α) : Option α :=
  match fields.lookup key with
  | some v => read v
  | none => some fallback

/-- The bucket with the given fields. -/
def bucketOfFields? (fields : Fields) : Option Bucket :=
  if allKnown ["name", "entities"] fields then do
    let name ← (fields.lookup "name").bind stringOf?
    let entities ← fieldOr fields "entities" stringsOf? []
    some ⟨name, entities⟩
  else none

/-- An entry of an inline table whose key has one part. -/
def fieldOf? : List String × Toml.Value → Option (String × Toml.Value)
  | ([key], v) => some (key, v)
  | _ => none

/-- The bucket that a value gives. Values after the name and the entities of an array are not looked
at. -/
def bucketOf? : Toml.Value → Option Bucket
  | .table entries => (entries.mapM fieldOf?).bind bucketOfFields?
  | .array [name] => (stringOf? name).map fun n => ⟨n, []⟩
  | .array (name :: entities :: _) => do
    let n ← stringOf? name
    let es ← stringsOf? entities
    some ⟨n, es⟩
  | _ => none

/-- The buckets that a value gives. -/
def bucketsOf? : Toml.Value → Option (List Bucket)
  | .array items => items.mapM bucketOf?
  | _ => none

/-- The keys of a configuration. -/
def keys : List String :=
  ["default_bucket", "extension", "index_name", "keep_leading_comments", "header", "bucket"]

/-- The buckets of a configuration: those of its tables, or those of its field. -/
def readBuckets (top : Fields) (tables : List Fields) : Option (List Bucket) :=
  if tables.isEmpty then fieldOr top "bucket" bucketsOf? standard.buckets
  else tables.mapM bucketOfFields?

/-- The configuration that the statements of a document give, valid or not. -/
def ofStatements? (statements : List Statement) : Option Config := do
  let (top, tables) ← layout statements
  if allKnown keys top then
    let defaultBucket ← fieldOr top "default_bucket" stringOf? standard.defaultBucket
    let extension ← fieldOr top "extension" stringOf? standard.extension
    let indexName ← fieldOr top "index_name" stringOf? standard.indexName
    let keepLeadingComments ←
      fieldOr top "keep_leading_comments" booleanOf? standard.keepLeadingComments
    let header ← fieldOr top "header" stringOf? standard.header
    let buckets ← readBuckets top tables
    some { defaultBucket, extension, indexName, keepLeadingComments, header, buckets }
  else none

/-- The configuration that a text gives, valid or not. -/
def ofToml (text : String) : Except Fault Config :=
  match document text with
  | .error fault => .error fault
  | .ok statements => orMalformed (ofStatements? statements)

/-- A bucket as a table of its own. -/
def bucketToml (b : Bucket) : String :=
  "\n[[bucket]]\n" ++ writeEntry "name" (writeString b.name) ++
    writeEntry "entities" (writeStrings b.entities)

/-- The configuration as a text. -/
def toToml (c : Config) : String :=
  writeEntry "default_bucket" (writeString c.defaultBucket) ++
    writeEntry "extension" (writeString c.extension) ++
    writeEntry "index_name" (writeString c.indexName) ++
    writeEntry "keep_leading_comments" (writeBool c.keepLeadingComments) ++
    writeEntry "header" (writeString c.header) ++
    if c.buckets.isEmpty then writeEntry "bucket" "[]"
    else String.join (c.buckets.map bucketToml)

end Config

/-- The valid configuration that a text gives. -/
def Config.ofText (text : String) : Except ConfigError Config :=
  match Config.ofToml text with
  | .error fault => .error (.faulty fault)
  | .ok c =>
    match c.defect? with
    | some d => .error (.invalid d)
    | none => .ok c

end SchemaModules
