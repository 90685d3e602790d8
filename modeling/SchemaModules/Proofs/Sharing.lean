import SchemaModules.Proofs.Modules

/-!
# Proofs: how modules share out a catalog

Every symbol of a catalog is owned by one module, and a module owns nothing else. Aliases stay with
their entities, and those without an entity go to the default bucket.
-/

namespace SchemaModules.Partition

variable {source origin : String} {config : Config} {p : Partition}

/-- The modules of a partition share out its catalog. -/
structure SharesOut (p : Partition) (config : Config) : Prop where
  /-- A symbol is listed once by one module, and not at all by another. -/
  listed_once : ∀ s ∈ p.catalog.symbols, ∃ m ∈ p.modules, m.owned.count s.name = 1 ∧
    ∀ n ∈ p.modules, s.name ∈ n.owned → n = m
  /-- A module lists symbols, by increasing offsets. -/
  owned_symbols : ∀ m ∈ p.modules, ∃ own : List Symbol, own.Sublist p.catalog.symbols ∧
    own.Pairwise (fun a b => a.offset < b.offset) ∧ m.owned = own.map Symbol.name
  /-- The modules have names of their own. -/
  names : (p.modules.map Module.name).Nodup
  /-- The modules stand in the order of the configuration. -/
  order : (p.modules.map Module.name).Sublist config.moduleOrder
  /-- No module is empty. -/
  owned_ne_nil : ∀ m ∈ p.modules, m.owned ≠ []
  /-- A resolved alias is listed by the module that lists its entity. -/
  resolved : ∀ a ∈ p.catalog.aliases, a.resolved = true →
    ∃ e ∈ p.catalog.entities, e.name = a.referencedEntity ∧
      ∃ m ∈ p.modules, e.name ∈ m.owned ∧ a.name ∈ m.owned
  /-- An unresolved alias has no entity, and is listed by the default bucket. -/
  unresolved : ∀ a ∈ p.catalog.aliases, a.resolved = false →
    (∀ e ∈ p.catalog.entities, e.name ≠ a.referencedEntity) ∧
      ∃ m ∈ p.modules, m.name = config.defaultBucket ∧ a.name ∈ m.owned

theorem listed_once_of_ofSource (h : ofSource source origin config = .ok p) {s : Symbol}
    (hs : s ∈ p.catalog.symbols) : ∃ m ∈ p.modules, m.owned.count s.name = 1 ∧
      ∀ n ∈ p.modules, s.name ∈ n.owned → n = m := by
  obtain ⟨m, hm, howner⟩ := exists_owner h hs
  have hmem := (name_mem_owned_iff h hm hs).mpr howner
  refine ⟨m, hm, List.count_eq_one_of_mem (nodup_owned h hm) hmem, ?_⟩
  intro n hn hlisted
  have howner' := (name_mem_owned_iff h hn hs).mp hlisted
  rw [howner] at howner'
  exact eq_of_name_eq h hn hm (Option.some.inj howner').symm

theorem owned_symbols_of_ofSource (h : ofSource source origin config = .ok p) {m : Module}
    (hm : m ∈ p.modules) : ∃ own : List Symbol, own.Sublist p.catalog.symbols ∧
      own.Pairwise (fun a b => a.offset < b.offset) ∧ m.owned = own.map Symbol.name := by
  have hsub : (p.symbolsOf m.name).Sublist p.catalog.symbols := List.filter_sublist
  exact ⟨_, hsub, (wellFormed_catalog h).offsets.sublist hsub, owned_eq h hm⟩

/-- Every name that a module lists is the name of a symbol. -/
theorem exists_symbol_of_mem_owned (h : ofSource source origin config = .ok p) {m : Module}
    (hm : m ∈ p.modules) {name : String} (hname : name ∈ m.owned) :
    ∃ s ∈ p.catalog.symbols, s.name = name ∧ p.assignment.ownerOf s.name = some m.name := by
  rw [owned_eq h hm] at hname
  obtain ⟨s, hs, rfl⟩ := List.mem_map.mp hname
  obtain ⟨hs, howner⟩ := mem_symbolsOf.mp hs
  exact ⟨s, hs, rfl, howner⟩

theorem owned_ne_nil_of_ofSource (h : ofSource source origin config = .ok p) {m : Module}
    (hm : m ∈ p.modules) : m.owned ≠ [] := by
  have hne := ((mem_modules h).mp hm).2.1
  rw [owned_eq h hm]
  simpa using hne

theorem resolved_of_ofSource (h : ofSource source origin config = .ok p) {a : Alias}
    (ha : a ∈ p.catalog.aliases) (hres : a.resolved = true) :
    ∃ e ∈ p.catalog.entities, e.name = a.referencedEntity ∧
      ∃ m ∈ p.modules, e.name ∈ m.owned ∧ a.name ∈ m.owned := by
  have hwf := wellFormed_catalog h
  obtain ⟨e, he, hname⟩ := (hwf.resolved_iff a ha).mp hres
  have hes : Symbol.entity e ∈ p.catalog.symbols := Catalog.entity_mem_symbols.mpr he
  have has : Symbol.derived a ∈ p.catalog.symbols := Catalog.derived_mem_symbols.mpr ha
  obtain ⟨m, hm, howner⟩ := exists_owner h hes
  -- the alias was placed while aliases before it had changed the assignment already
  have hsame : p.assignment.ownerOf a.name = p.assignment.ownerOf e.name := by
    rw [assignment_eq h]
    exact Assignment.ownerOf_resolved hwf.names ha he hres hname
  refine ⟨e, he, hname, m, hm, (name_mem_owned_iff h hm hes).mpr howner, ?_⟩
  exact (name_mem_owned_iff h hm has).mpr (hsame.trans howner)

theorem unresolved_of_ofSource (h : ofSource source origin config = .ok p) {a : Alias}
    (ha : a ∈ p.catalog.aliases) (hres : a.resolved = false) :
    (∀ e ∈ p.catalog.entities, e.name ≠ a.referencedEntity) ∧
      ∃ m ∈ p.modules, m.name = config.defaultBucket ∧ a.name ∈ m.owned := by
  have hwf := wellFormed_catalog h
  have has : Symbol.derived a ∈ p.catalog.symbols := Catalog.derived_mem_symbols.mpr ha
  have howner : p.assignment.ownerOf a.name = some config.defaultBucket := by
    rw [assignment_eq h]
    exact Assignment.ownerOf_unresolved hwf.names ha hres
  constructor
  · intro e he hname
    have htrue := (hwf.resolved_iff a ha).mpr ⟨e, he, hname⟩
    rw [hres] at htrue
    exact Bool.noConfusion htrue
  · obtain ⟨m, hm, hm'⟩ := exists_owner h has
    have hname : m.name = config.defaultBucket := Option.some.inj (hm'.symm.trans howner)
    exact ⟨m, hm, hname, (name_mem_owned_iff h hm has).mpr hm'⟩

/-- The modules of a partition of a source share out its catalog. -/
theorem sharesOut_of_ofSource (hvalid : config.Valid)
    (h : ofSource source origin config = .ok p) : p.SharesOut config where
  listed_once _ hs := listed_once_of_ofSource h hs
  owned_symbols _ hm := owned_symbols_of_ofSource h hm
  names := nodup_map_name_modules hvalid h
  order := map_name_modules_sublist h
  owned_ne_nil _ hm := owned_ne_nil_of_ofSource h hm
  resolved _ ha hres := resolved_of_ofSource h ha hres
  unresolved _ ha hres := unresolved_of_ofSource h ha hres

end SchemaModules.Partition
