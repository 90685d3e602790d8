import SchemaModules.Order.StableSort

/-!
# The catalog of a schema

A schema declares *entities*, which are tables, and *aliases*, which are types derived from an entity.
A catalog holds both and lists them together, as symbols, in the order in which the source declares
them. An alias is *resolved* when the catalog has the entity that it refers to.
-/

namespace SchemaModules

/-- Which form of an entity's rows an alias stands for. -/
inductive Shape
  /-- A row as it is read. -/
  | read
  /-- A row as it is written. -/
  | write
  deriving Repr, DecidableEq

/-- A table declaration. -/
structure Entity where
  /-- The name that the source gives it. -/
  name : String
  /-- The name of the table in the database. -/
  physicalName : String
  /-- The declaration as written. -/
  bodyText : String
  /-- The comment lines directly above the declaration. -/
  leadingComment : Option String
  /-- The byte at which the declaration starts. -/
  offset : Nat
  deriving Repr, DecidableEq

/-- A type derived from an entity. -/
structure Alias where
  /-- The name that the source gives it. -/
  name : String
  /-- The entity that it refers to, which need not exist. -/
  referencedEntity : String
  /-- The form of the entity's rows. -/
  shape : Shape
  /-- The declaration as written. -/
  bodyText : String
  /-- Whether the entity exists. -/
  resolved : Bool
  /-- The byte at which the declaration starts. -/
  offset : Nat
  deriving Repr, DecidableEq

/-- An entity or an alias. -/
inductive Symbol
  /-- A table declaration. -/
  | entity (e : Entity)
  /-- A type derived from one. -/
  | derived (a : Alias)
  deriving Repr, DecidableEq

namespace Symbol

/-- The name that the source gives the symbol. -/
def name : Symbol → String
  | .entity e => e.name
  | .derived a => a.name

/-- The byte at which the symbol's declaration starts. -/
def offset : Symbol → Nat
  | .entity e => e.offset
  | .derived a => a.offset

/-- The declaration as written. -/
def bodyText : Symbol → String
  | .entity e => e.bodyText
  | .derived a => a.bodyText

/-- The word for the kind of symbol. -/
def kind : Symbol → String
  | .entity _ => "entity"
  | .derived _ => "alias"

/-- The text that stands for the symbol in a module: its declaration, below its comment and an empty
line when comments are kept. -/
def moduleText (keepComments : Bool) : Symbol → String
  | .entity e =>
    match keepComments, e.leadingComment with
    | true, some comment => comment ++ "\n\n" ++ e.bodyText
    | _, _ => e.bodyText
  | .derived a => a.bodyText

end Symbol

/-- The entities and aliases of a schema. -/
structure Catalog where
  /-- The entities, in the order in which they were given. -/
  entities : List Entity
  /-- The aliases, in the order in which they were given. -/
  aliases : List Alias
  deriving Repr, DecidableEq

namespace Catalog

/-- The catalog of the given entities and aliases: an alias is resolved when one of the entities has
the name that it refers to. -/
def ofLists (entities : List Entity) (aliases : List Alias) : Catalog where
  entities := entities
  aliases := aliases.map fun a =>
    { a with resolved := entities.any fun e => e.name = a.referencedEntity }

/-- Everything in the catalog, by offset; at equal offsets entities come before aliases, and each kind
keeps its order. -/
def symbols (c : Catalog) : List Symbol :=
  stableSort (fun a b => a.offset ≤ b.offset)
    (c.entities.map Symbol.entity ++ c.aliases.map Symbol.derived)

/-- The last symbol with the given name. -/
def get? (c : Catalog) (name : String) : Option Symbol :=
  c.symbols.reverse.find? fun s => s.name = name

/-- The last symbol with the given name, if it is an entity. -/
def entity? (c : Catalog) (name : String) : Option Entity :=
  match c.get? name with
  | some (.entity e) => some e
  | _ => none

/-- The number of symbols. -/
def size (c : Catalog) : Nat := c.symbols.length

/-- Whether the catalog has no symbol. -/
def isEmpty (c : Catalog) : Bool := c.symbols.isEmpty

end Catalog

end SchemaModules
