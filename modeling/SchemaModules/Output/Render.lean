import SchemaModules.Digest.Sha256
import SchemaModules.Json.Pretty
import SchemaModules.Partition
import SchemaModules.Text.Blank

/-!
# Output files and the manifest

A module file has the header of the configuration, the module's imports and, after an empty line, its
body. The index file, which comes last, exports everything of every module. The manifest is an account
of a run for programs to read.
-/

namespace SchemaModules

open Text

/-- A file to be written. -/
structure OutputFile where
  /-- Its name in the output directory. -/
  fileName : String
  /-- Its text. -/
  contents : String
  deriving Repr, DecidableEq

namespace Output

/-- The header of module files as lines; a header of blanks alone is left out. -/
def headerLines (header : String) : String :=
  if allBlank header.toList then "" else String.ofList (trimEnd header.toList) ++ "\n"

/-- The text of a module file. -/
def moduleContents (p : Partition) (config : Config) (m : Module) : String :=
  let top := headerLines config.header ++
    String.join ((p.importsOf m.name).map fun i => i.toText ++ "\n")
  (if top.isEmpty then "" else top ++ "\n") ++ m.body ++ "\n"

/-- The text of the index file. -/
def indexContents (p : Partition) : String :=
  String.join (p.modules.map fun m => "export * from './" ++ m.name ++ "';\n")

/-- The name of the output file with the given stem. -/
def fileName (config : Config) (stem : String) : String := stem ++ "." ++ config.fileExtension

/-- The files of a partition: the modules in module order, then the index. -/
def render (p : Partition) (config : Config) : List OutputFile :=
  p.modules.map (fun m => ⟨fileName config m.name, moduleContents p config m⟩) ++
    [⟨fileName config config.indexName, indexContents p⟩]

/-- The manifest of a run on the source called `source`. -/
def manifest (source : String) (p : Partition) (files : List OutputFile) : Json.Value :=
  .object
    [("source", .string source),
     ("entities", .number p.catalog.entities.length),
     ("aliases", .number p.catalog.aliases.length),
     ("modules", .array (p.modules.map fun m =>
        .object [("name", .string m.name), ("symbols", .strings m.owned)])),
     ("files", .array (files.map fun f =>
        .object [("file", .string f.fileName), ("sha256", .string (Digest.sha256 f.contents)),
          ("bytes", .number f.contents.utf8ByteSize)])),
     ("edges", .array (p.edges.map fun e =>
        .object [("consumer", .string e.consumer), ("owner", .string e.owner),
          ("symbol", .string e.symbol)])),
     ("warnings", .array (p.warnings.map Warning.toJson))]

end Output

end SchemaModules
