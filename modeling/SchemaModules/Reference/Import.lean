import SchemaModules.Reference.Edge

/-!
# Import statements

A module has one import statement for each module that it depends on, in module order. The statement
names every symbol that is needed once, in the order in which the references were found.
-/

namespace SchemaModules.Reference

/-- An import of names from one module. -/
structure Import where
  /-- The module that owns the names. -/
  owner : String
  /-- The names. -/
  names : List String
  deriving Repr, DecidableEq

/-- The statement as it stands in a module file. -/
def Import.toText (i : Import) : String :=
  "import \x7b " ++ ", ".intercalate i.names ++ " \x7d from \"./" ++ i.owner ++ "\";"

/-- The names that `consumer` needs from `owner`. -/
def neededFrom (consumer owner : String) (edges : List Edge) : List String :=
  ((edges.filter fun e => e.consumer = consumer && e.owner = owner).map Edge.symbol).eraseDups

/-- The import statements of `consumer`. -/
def imports (consumer : String) (edges : List Edge) (moduleOrder : List String) : List Import :=
  (moduleOrder.filter fun owner => owner ≠ consumer).filterMap fun owner =>
    let names := neededFrom consumer owner edges
    if names.isEmpty then none else some ⟨owner, names⟩

end SchemaModules.Reference
