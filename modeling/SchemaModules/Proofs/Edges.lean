import SchemaModules.Proofs.References

/-!
# Proofs: the references of modules

The references are listed module by module, and those of one module in the order of the catalog. There
is one for each symbol of another module that occurs whole in the body. The body is never searched for
names: it is cut into identifiers, and a name that is one of them occurs whole.
-/

namespace SchemaModules.Reference

open Text

/-- The references that are found in a module are those to the symbols of other modules that occur whole
in its body, with no identifier character next to them. -/
structure ListsReferences (catalog : Catalog) (assignment : Assignment) (m : Module)
    (found : List Edge) : Prop where
  /-- There is a reference to each such symbol, and no other. -/
  mem_iff : ∀ consumer owner name, ⟨consumer, owner, name⟩ ∈ found ↔
    consumer = m.name ∧ owner ≠ m.name ∧ assignment.ownerOf name = some owner ∧
      (∃ s ∈ catalog.symbols, s.name = name) ∧ OccursWhole isIdentChar name.toList m.body.toList
  /-- They stand in the order of the catalog. -/
  order : (found.map Edge.symbol).Sublist (catalog.symbols.map Symbol.name)
  /-- There is one for a symbol at most. -/
  once : (found.map Edge.symbol).Nodup
  /-- A name that stands in the body only as a part of longer identifiers is not referred to. -/
  inside : ∀ name : String, (∀ before after, m.body.toList = before ++ name.toList ++ after →
    (∃ c ∈ before.getLast?, isIdentChar c = true) ∨ ∃ c ∈ after.head?, isIdentChar c = true) →
      name ∉ found.map Edge.symbol
  /-- No module refers to itself. -/
  other : ∀ e ∈ found, e.owner ≠ e.consumer

variable {catalog : Catalog} {assignment : Assignment} {m : Module}

theorem map_symbol_edgesOf_sublist (catalog : Catalog) (assignment : Assignment) (m : Module) :
    ((edgesOf catalog assignment m).map Edge.symbol).Sublist (catalog.symbols.map Symbol.name) := by
  rw [edgesOf_eq]
  induction catalog.symbols with
  | nil => exact List.Sublist.refl _
  | cons s symbols ih =>
    cases href : referenceTo? assignment m s with
    | none =>
      rw [List.filterMap_cons_none href]
      exact ih.cons _
    | some e =>
      obtain ⟨-, -, -, he⟩ := referenceTo?_eq_some.mp href
      have hname : e.symbol = s.name := by rw [he]
      rw [List.filterMap_cons_some href, List.map_cons, List.map_cons, hname]
      exact ih.cons_cons _

theorem mem_edgesOf {e : Edge} : e ∈ edgesOf catalog assignment m ↔
    e.consumer = m.name ∧ e.owner ≠ m.name ∧ assignment.ownerOf e.symbol = some e.owner ∧
      (∃ s ∈ catalog.symbols, s.name = e.symbol) ∧ e.symbol ∈ identifiers m.body := by
  rw [edgesOf_eq, List.mem_filterMap]
  constructor
  · rintro ⟨s, hs, href⟩
    obtain ⟨howner, hne, hmem, he⟩ := referenceTo?_eq_some.mp href
    have hname : e.symbol = s.name := by rw [he]
    have hconsumer : e.consumer = m.name := by rw [he]
    rw [hname]
    exact ⟨hconsumer, hne, howner, ⟨s, hs, rfl⟩, hmem⟩
  · rintro ⟨hconsumer, hne, howner, ⟨s, hs, hname⟩, hmem⟩
    rw [← hname] at howner hmem
    refine ⟨s, hs, referenceTo?_eq_some.mpr ⟨howner, hne, hmem, ?_⟩⟩
    rw [hname, ← hconsumer]

theorem listsReferences_edgesOf (hnames : (catalog.symbols.map Symbol.name).Nodup)
    (hident : ∀ s ∈ catalog.symbols, s.name.toList ≠ [] ∧ ∀ c ∈ s.name.toList, isIdentChar c = true) :
    ListsReferences catalog assignment m (edgesOf catalog assignment m) where
  mem_iff := by
    intro consumer owner name
    rw [mem_edgesOf, mem_identifiers]
    constructor
    · rintro ⟨hconsumer, hne, howner, hs, -, -, hwhole⟩
      exact ⟨hconsumer, hne, howner, hs, hwhole⟩
    · rintro ⟨hconsumer, hne, howner, ⟨s, hs, rfl⟩, hwhole⟩
      exact ⟨hconsumer, hne, howner, ⟨s, hs, rfl⟩, (hident s hs).1, (hident s hs).2, hwhole⟩
  order := map_symbol_edgesOf_sublist catalog assignment m
  once := hnames.sublist (map_symbol_edgesOf_sublist catalog assignment m)
  inside := by
    intro name hinside hname
    obtain ⟨e, he, rfl⟩ := List.mem_map.mp hname
    obtain ⟨-, -, -, -, hmem⟩ := mem_edgesOf.mp he
    obtain ⟨-, -, before, after, hbody, hbefore, hafter⟩ := mem_identifiers.mp hmem
    rcases hinside before after hbody with ⟨c, hc, hident⟩ | ⟨c, hc, hident⟩
    · rw [hbefore c hc] at hident
      exact Bool.noConfusion hident
    · rw [hafter c hc] at hident
      exact Bool.noConfusion hident
  other := by
    intro e he
    obtain ⟨hconsumer, hne, -⟩ := mem_edgesOf.mp he
    rw [hconsumer]
    exact hne

/-- The references of all modules are those of each module, in the order of the modules. -/
theorem edges_list_references (modules : List Module) (catalog : Catalog) (assignment : Assignment)
    (hnames : (catalog.symbols.map Symbol.name).Nodup)
    (hident : ∀ s ∈ catalog.symbols, s.name.toList ≠ [] ∧ ∀ c ∈ s.name.toList, isIdentChar c = true) :
    ∃ parts, edges modules catalog assignment = parts.flatten ∧
      List.Forall₂ (ListsReferences catalog assignment) modules parts := by
  refine ⟨modules.map (edgesOf catalog assignment), List.flatMap_def, ?_⟩
  rw [List.forall₂_map_right_iff, List.forall₂_same]
  intro m _
  exact listsReferences_edgesOf hnames hident

/-- A catalog with a name that is the start of another. -/
def flagsCatalog : Catalog :=
  Catalog.ofLists [⟨"user", "u", "", none, 0⟩, ⟨"userFlags", "f", "", none, 40⟩] []

/-- Two modules, of which the first refers to the second in its first word only. -/
def flagsModules : List Module :=
  [⟨"flags", ["userFlags"], "user.id, userFlags, userFlagsé, éuser"⟩, ⟨"base", ["user"], "user, user2"⟩]

theorem flagsModules_list_references :
    ∃ parts, edges flagsModules flagsCatalog ⟨[("user", "base"), ("userFlags", "flags")]⟩ =
        parts.flatten ∧
      List.Forall₂ (ListsReferences flagsCatalog ⟨[("user", "base"), ("userFlags", "flags")]⟩)
        flagsModules parts ∧
      parts.flatten = [⟨"flags", "base", "user"⟩] := by
  have hident : flagsCatalog.symbols.all (fun s =>
      !s.name.toList.isEmpty && s.name.toList.all isIdentChar) = true := by decide
  obtain ⟨parts, hparts, hlists⟩ := edges_list_references flagsModules flagsCatalog
    ⟨[("user", "base"), ("userFlags", "flags")]⟩ (by decide) (by simpa using hident)
  refine ⟨parts, hparts, hlists, ?_⟩
  rw [← hparts]
  decide +kernel

end SchemaModules.Reference
