import SchemaModules.Catalog.Basic

/-!
# The index of a catalog

A *slot* is the place of a symbol in one of the two lists of a catalog. The index of a catalog lists the
slots by the offsets of their symbols and has a table of names, in which every symbol is entered in this
order. A later symbol takes over the name of an earlier one, so a name leads to the last symbol that has it.
-/

namespace SchemaModules.Catalog

/-- The place of a symbol in the lists of the catalog. -/
inductive Slot (c : Catalog)
  /-- A place among the entities. -/
  | entity (i : Fin c.entities.length)
  /-- A place among the aliases. -/
  | derived (i : Fin c.aliases.length)
  deriving Repr, DecidableEq

/-- The symbol at a slot. -/
def symbolAt (c : Catalog) : c.Slot → Symbol
  | .entity i => .entity c.entities[i]
  | .derived i => .derived c.aliases[i]

/-- All slots: those of the entities, then those of the aliases. -/
def slots (c : Catalog) : List c.Slot :=
  (List.finRange c.entities.length).map .entity ++ (List.finRange c.aliases.length).map .derived

/-- The slots by offset; those at equal offsets keep their order. -/
def order (c : Catalog) : List c.Slot :=
  stableSort (fun a b => (c.symbolAt a).offset ≤ (c.symbolAt b).offset) c.slots

/-- The table in which `slot` has the name of its symbol, whichever slot had it before. -/
def enter (c : Catalog) (table : List (String × c.Slot)) (slot : c.Slot) : List (String × c.Slot) :=
  ((c.symbolAt slot).name, slot) :: table.filter fun p => p.1 != (c.symbolAt slot).name

/-- The slot that each name leads to. -/
def byName (c : Catalog) : List (String × c.Slot) := c.order.foldl c.enter []

/-- The symbol that a name leads to. -/
def find? (c : Catalog) (name : String) : Option Symbol := (c.byName.lookup name).map c.symbolAt

/-- The entity that a name leads to, if it leads to one. -/
def findEntity? (c : Catalog) (name : String) : Option Entity :=
  match c.byName.lookup name with
  | some (.entity i) => some c.entities[i]
  | _ => none

end SchemaModules.Catalog
