import SchemaModules.Catalog.Extract
import SchemaModules.Reference.Cycle
import SchemaModules.Reference.Import

/-!
# Partitioning a schema

The whole way from a source to its modules: the catalog, the owner of every symbol, the modules with
their texts, the references between them, and the cycles among those.
-/

namespace SchemaModules

/-- A schema cut into modules. -/
structure Partition where
  /-- The symbols of the schema. -/
  catalog : Catalog
  /-- The module of every symbol. -/
  assignment : Assignment
  /-- The modules that own something, in module order. -/
  modules : List Module
  /-- The references between modules. -/
  edges : List Reference.Edge
  /-- The cycles among the references. -/
  cycles : List (List String)
  /-- The warnings, those about cycles last. -/
  warnings : List Warning
  /-- The names of all modules, those that own nothing included. -/
  moduleOrder : List String
  deriving Repr, DecidableEq

namespace Partition

/-- The partition of a catalog. -/
def ofCatalog (catalog : Catalog) (config : Config) : Partition :=
  let (assignment, placing) := Assignment.ofCatalog catalog config
  let moduleOrder := config.moduleOrder
  let modules := (moduleOrder.map
    (Module.ofCatalog catalog assignment config.keepLeadingComments)).filter fun m => !m.isEmpty
  let edges := Reference.edges modules catalog assignment
  let cycles := Reference.cycles moduleOrder edges
  { catalog, assignment, modules, edges, cycles, moduleOrder
    warnings := placing ++ cycles.map .importCycle }

/-- The partition of a source, which messages call `origin`. -/
def ofSource (source origin : String) (config : Config) : Except ExtractError Partition :=
  (Catalog.extract source origin).map fun catalog => ofCatalog catalog config

/-- The import statements of a module. -/
def importsOf (p : Partition) (consumer : String) : List Reference.Import :=
  Reference.imports consumer p.edges p.moduleOrder

end Partition

end SchemaModules
