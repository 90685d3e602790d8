import SchemaModules.Catalog.Basic
import SchemaModules.Config.Basic
import SchemaModules.Lookup
import SchemaModules.Warning

/-!
# Assigning symbols to modules

Every symbol of a catalog gets one module. An entity goes to the bucket that lists it first, and to the
default bucket when none does. A resolved alias goes with the entity that it refers to; an unresolved
one goes to the default bucket, with a warning. Listings that have no effect are warned about.
-/

namespace SchemaModules

/-- The module of every symbol that has been placed, one for each name. -/
structure Assignment where
  /-- The placed names with their modules. -/
  owners : List (String × String) := []
  deriving Repr, DecidableEq

namespace Assignment

/-- The module that owns the symbol called `name`. -/
def ownerOf (a : Assignment) (name : String) : Option String := a.owners.lookup name

/-- The assignment in which `module` owns `name`, whoever owned it before. -/
def place (a : Assignment) (name module : String) : Assignment :=
  ⟨(name, module) :: a.owners.filter fun p => p.1 != name⟩

/-- The number of names that have been placed. -/
def size (a : Assignment) : Nat := a.owners.length

/-- Whether no name has been placed. -/
def isEmpty (a : Assignment) : Bool := a.owners.isEmpty

@[simp] theorem ownerOf_empty (name : String) : ({} : Assignment).ownerOf name = none := rfl

/-- After a name has been placed its owner is the module, and all other owners are as before. -/
theorem ownerOf_place (a : Assignment) (name module key : String) :
    (a.place name module).ownerOf key = if key = name then some module else a.ownerOf key :=
  lookup_replace key name module a.owners

end Assignment

namespace Config

/-- The bucket that lists `entity` first. -/
def firstBucket? (c : Config) (entity : String) : Option String :=
  (c.listings.find? fun l => l.2 = entity).map Prod.fst

end Config

namespace Catalog

/-- The warnings about listings, where the listings `earlier` stand before them: a listing of an entity
that an earlier bucket of another name has, and the first listing of a name that is not an entity. -/
def listingWarnings (catalog : Catalog) :
    List (String × String) → List (String × String) → List Warning
  | _, [] => []
  | earlier, (bucket, entity) :: rest =>
    let now := match earlier.find? fun l => l.2 = entity with
      | some (kept, _) => if kept = bucket then [] else [.duplicateMember entity kept bucket]
      | none => if (catalog.entity? entity).isNone then [.unknownMember bucket entity] else []
    now ++ listingWarnings catalog (earlier ++ [(bucket, entity)]) rest

end Catalog

namespace Assignment

/-- Places the entities, each in the first bucket that lists it. -/
def placeEntities (config : Config) (entities : List Entity) : Assignment :=
  entities.foldl
    (fun a e => a.place e.name ((config.firstBucket? e.name).getD config.defaultBucket)) {}

/-- The module of an alias, where the entities and the aliases before it have been placed. -/
def aliasOwner? (a : Assignment) (d : Alias) : Option String :=
  if d.resolved then a.ownerOf d.referencedEntity else none

/-- Places the aliases among the symbols, from the first to the last. -/
def placeAliases (fallback : String) : Assignment → List Symbol → Assignment × List Warning
  | a, [] => (a, [])
  | a, .entity _ :: rest => placeAliases fallback a rest
  | a, .derived d :: rest =>
    match a.aliasOwner? d with
    | some owner => placeAliases fallback (a.place d.name owner) rest
    | none =>
      let (placed, warnings) := placeAliases fallback (a.place d.name fallback) rest
      (placed, .unresolvedAlias d.name d.referencedEntity fallback :: warnings)

/-- The module of every symbol of a catalog, and the warnings of placing them. -/
def ofCatalog (catalog : Catalog) (config : Config) : Assignment × List Warning :=
  let (placed, warnings) :=
    placeAliases config.defaultBucket (placeEntities config catalog.entities) catalog.symbols
  (placed, catalog.listingWarnings [] config.listings ++ warnings)

end Assignment

end SchemaModules
