import SchemaModules.Module
import SchemaModules.Reference.Identifier

/-!
# References between modules

A module depends on a symbol of another module when the symbol's name is an identifier of its body. A
module that merely names a symbol in a comment or a string depends on it too.
-/

namespace SchemaModules.Reference

/-- The module `consumer` refers to `symbol`, which the module `owner` owns. -/
structure Edge where
  /-- The module that refers. -/
  consumer : String
  /-- The module that is referred to. -/
  owner : String
  /-- The name by which it is referred to. -/
  symbol : String
  deriving Repr, DecidableEq

/-- The references of a module to symbols of others, in source order of the symbols. -/
def edgesOf (catalog : Catalog) (assignment : Assignment) (m : Module) : List Edge :=
  let names := identifiers m.body
  catalog.symbols.filterMap fun s =>
    match assignment.ownerOf s.name with
    | none => none
    | some owner =>
      if owner ≠ m.name && names.contains s.name then some ⟨m.name, owner, s.name⟩ else none

/-- The references of all modules, module by module. -/
def edges (modules : List Module) (catalog : Catalog) (assignment : Assignment) : List Edge :=
  modules.flatMap (edgesOf catalog assignment)

end SchemaModules.Reference
