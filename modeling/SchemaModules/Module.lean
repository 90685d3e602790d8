import SchemaModules.Assignment

/-!
# Modules

A module is made of the texts of the symbols that it owns, in source order and with an empty line
between two.
-/

namespace SchemaModules

/-- An output module. -/
structure Module where
  /-- Its name. -/
  name : String
  /-- The names of the symbols that it owns, in source order. -/
  owned : List String
  /-- The texts of those symbols, with an empty line between two. -/
  body : String
  deriving Repr, DecidableEq

namespace Module

/-- The module with the given name, made of what the assignment gives it. -/
def ofCatalog (catalog : Catalog) (assignment : Assignment) (keepComments : Bool)
    (name : String) : Module :=
  let own := catalog.symbols.filter fun s => assignment.ownerOf s.name = some name
  { name
    owned := own.map Symbol.name
    body := "\n\n".intercalate (own.map (Symbol.moduleText keepComments)) }

/-- Whether the module owns nothing. -/
def isEmpty (m : Module) : Bool := m.owned.isEmpty

end Module

end SchemaModules
