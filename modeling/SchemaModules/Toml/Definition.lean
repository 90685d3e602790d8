/-!
# What a document defines

Every statement of a document defines something at a path: a value, a table, or one more element of an
array of tables. Nothing may be defined twice, with one exception: a path through which a header has
merely passed may become a table of its own later. The parts of a key pass through tables too, but only
through those that keys alone have made.
-/

namespace SchemaModules.Toml

/-- What there is at a path. -/
inductive Definition
  /-- A value, which nothing can be added to. -/
  | value
  /-- A table with a header of its own. -/
  | table
  /-- A table that is there because a longer path leads through it: that of a key if `byKey`, or else
  that of a header. -/
  | passage (byKey : Bool)
  /-- An array of tables, which stands for its last element. -/
  | elements
  deriving Repr, DecidableEq

/-- What there is at each path so far. The first pair with a path counts. -/
abbrev Definitions := List (List String × Definition)

/-- The definitions after a path has been passed through, if that is possible. -/
def pass (byKey : Bool) (ds : Definitions) (path : List String) : Option Definitions :=
  match ds.lookup path with
  | none => some ((path, .passage byKey) :: ds)
  | some .value => none
  | some .table => if byKey then none else some ds
  | some (.passage _) => some ds
  | some .elements => some ds

/-- The definitions after the path from `here` over the given parts has been passed through. -/
def passAll (byKey : Bool) : Definitions → List String → List String → Option Definitions
  | ds, _, [] => some ds
  | ds, here, part :: rest =>
    match pass byKey ds (here ++ [part]) with
    | none => none
    | some ds => passAll byKey ds (here ++ [part]) rest

/-- The definitions after a key has been given a value in the table at `here`. -/
def defineValue (ds : Definitions) (here key : List String) : Option Definitions :=
  match passAll true ds here key.dropLast with
  | none => none
  | some ds =>
    let parent := here ++ key.dropLast
    if key.dropLast.isEmpty || ds.lookup parent = some (.passage true) then
      if (ds.lookup (here ++ key)).isSome then none else some ((here ++ key, .value) :: ds)
    else none

/-- The definitions after a table has got a header of its own. -/
def defineTable (ds : Definitions) (path : List String) : Option Definitions :=
  match passAll false ds [] path.dropLast with
  | none => none
  | some ds =>
    match ds.lookup path with
    | none => some ((path, .table) :: ds)
    | some (.passage false) => some ((path, .table) :: ds)
    | some _ => none

/-- The definitions after an array of tables has got another element, in which nothing is defined. -/
def defineElement (ds : Definitions) (path : List String) : Option Definitions :=
  match passAll false ds [] path.dropLast with
  | none => none
  | some ds =>
    if ds.lookup path = none ∨ ds.lookup path = some .elements then
      some ((path, .elements) :: ds.filter fun d => !path.isPrefixOf d.1)
    else none

end SchemaModules.Toml
