import SchemaModules.Output.Render
import SchemaModules.Proofs.Sharing
import SchemaModules.Reference.Graph

/-!
# Proofs: imports link

What a module imports from another are the symbols of the other that are identifiers of its body, in
source order. Every property of the import statements follows from this one equation.
-/

namespace SchemaModules

open Reference Output

namespace Reference

theorem eraseDups_of_nodup {names : List String} (h : names.Nodup) : names.eraseDups = names := by
  induction names with
  | nil => rfl
  | cons name names ih =>
    obtain ⟨hname, hnames⟩ := List.nodup_cons.mp h
    have hfilter : names.filter (fun n => !n == name) = names := by
      apply List.filter_eq_self.mpr
      intro n hn
      have hne : n ≠ name := fun heq => hname (heq ▸ hn)
      simpa using hne
    rw [List.eraseDups_cons, hfilter, ih hnames]

/-- The reference of a module to a symbol, if there is one. -/
def referenceTo? (assignment : Assignment) (m : Module) (s : Symbol) : Option Edge :=
  match assignment.ownerOf s.name with
  | none => none
  | some owner =>
    if owner ≠ m.name && (identifiers m.body).contains s.name then
      some ⟨m.name, owner, s.name⟩
    else none

theorem edgesOf_eq (catalog : Catalog) (assignment : Assignment) (m : Module) :
    edgesOf catalog assignment m = catalog.symbols.filterMap (referenceTo? assignment m) := rfl

theorem referenceTo?_eq_some {assignment : Assignment} {m : Module} {s : Symbol} {e : Edge} :
    referenceTo? assignment m s = some e ↔ assignment.ownerOf s.name = some e.owner ∧
      e.owner ≠ m.name ∧ s.name ∈ identifiers m.body ∧ e = ⟨m.name, e.owner, s.name⟩ := by
  unfold referenceTo?
  cases assignment.ownerOf s.name with
  | none => simp
  | some owner =>
    show (if owner ≠ m.name && (identifiers m.body).contains s.name then
      some (Edge.mk m.name owner s.name) else none) = some e ↔ _
    by_cases hrefers : (owner ≠ m.name && (identifiers m.body).contains s.name) = true
    · rw [if_pos hrefers]
      have hparts : owner ≠ m.name ∧ s.name ∈ identifiers m.body := by simpa using hrefers
      constructor
      · intro he
        rw [← Option.some.inj he]
        exact ⟨rfl, hparts.1, hparts.2, rfl⟩
      · rintro ⟨howner, -, -, he⟩
        rw [he, Option.some.inj howner]
    · rw [if_neg hrefers]
      constructor
      · intro he
        simp at he
      · rintro ⟨howner, hne, hmem, -⟩
        rw [← Option.some.inj howner] at hne
        exact absurd (by simp [hne, hmem]) hrefers

/-- The references of a module to what one owner has, named in source order. -/
theorem map_symbol_edgesOf (catalog : Catalog) (assignment : Assignment) (m : Module)
    (owner : String) :
    ((edgesOf catalog assignment m).filter fun e => e.owner = owner).map Edge.symbol =
      (catalog.symbols.filter fun s => assignment.ownerOf s.name = some owner ∧ owner ≠ m.name ∧
        s.name ∈ identifiers m.body).map Symbol.name := by
  rw [edgesOf_eq]
  induction catalog.symbols with
  | nil => rfl
  | cons s symbols ih =>
    by_cases hs : assignment.ownerOf s.name = some owner ∧ owner ≠ m.name ∧
        s.name ∈ identifiers m.body
    · have href : referenceTo? assignment m s = some ⟨m.name, owner, s.name⟩ :=
        referenceTo?_eq_some.mpr ⟨hs.1, hs.2.1, hs.2.2, rfl⟩
      rw [List.filterMap_cons_some href, List.filter_cons_of_pos (by simp),
        List.filter_cons_of_pos (by simpa using hs), List.map_cons, List.map_cons, ih]
    · rw [List.filter_cons_of_neg (by simpa using hs), ← ih]
      cases href : referenceTo? assignment m s with
      | none => rw [List.filterMap_cons_none href]
      | some e =>
        obtain ⟨howner, hne, hmem, -⟩ := referenceTo?_eq_some.mp href
        have hother : e.owner ≠ owner := fun heq => hs (heq ▸ ⟨howner, hne, hmem⟩)
        rw [List.filterMap_cons_some href, List.filter_cons_of_neg (by simpa using hother)]

/-- The references of one module among those of all modules, when these have names of their own. -/
theorem filter_edges {modules : List Module} (catalog : Catalog) (assignment : Assignment)
    (hnames : (modules.map Module.name).Nodup) {m : Module} (hm : m ∈ modules) (owner : String) :
    (edges modules catalog assignment).filter (fun e => e.consumer = m.name && e.owner = owner) =
      (edgesOf catalog assignment m).filter fun e => e.owner = owner := by
  have hconsumer : ∀ n : Module, ∀ e ∈ edgesOf catalog assignment n, e.consumer = n.name := by
    intro n e he
    obtain ⟨s, -, he⟩ := List.mem_filterMap.mp he
    rw [(referenceTo?_eq_some.mp he).2.2.2]
  have hself : ∀ n : Module, n.name = m.name →
      (edgesOf catalog assignment n).filter (fun e => e.consumer = m.name && e.owner = owner) =
        (edgesOf catalog assignment n).filter fun e => e.owner = owner := by
    intro n hn
    apply List.filter_congr
    intro e he
    simp [hconsumer n e he, hn]
  have hother : ∀ n : Module, n.name ≠ m.name →
      (edgesOf catalog assignment n).filter (fun e => e.consumer = m.name && e.owner = owner) =
        [] := by
    intro n hn
    apply List.filter_eq_nil_iff.mpr
    intro e he
    simp [hconsumer n e he, hn]
  unfold edges
  rw [List.filter_flatMap]
  -- only `m` contributes: the names of the modules before and after it are different
  induction modules with
  | nil => simp at hm
  | cons n modules ih =>
    rw [List.map_cons, List.nodup_cons] at hnames
    rw [List.flatMap_cons]
    rcases List.mem_cons.mp hm with rfl | hm
    · have hrest : (modules.flatMap fun n => (edgesOf catalog assignment n).filter
          fun e => e.consumer = m.name && e.owner = owner) = [] := by
        apply List.flatMap_eq_nil_iff.mpr
        intro n hn
        exact hother n fun heq => hnames.1 (heq ▸ List.mem_map_of_mem hn)
      rw [hself m rfl, hrest, List.append_nil]
    · have hne : n.name ≠ m.name := fun heq => hnames.1 (heq ▸ List.mem_map_of_mem hm)
      rw [hother n hne, ih hnames.2 hm]
      rfl

end Reference

namespace Partition

variable {source origin : String} {config : Config} {p : Partition}

/-- What a module imports from another are the symbols of the other that its body refers to. -/
theorem neededFrom_eq (hvalid : config.Valid) (h : ofSource source origin config = .ok p)
    {m : Module} (hm : m ∈ p.modules) (owner : String) :
    neededFrom m.name owner p.edges =
      (p.catalog.symbols.filter fun s => p.assignment.ownerOf s.name = some owner ∧
        owner ≠ m.name ∧ s.name ∈ identifiers m.body).map Symbol.name := by
  have hnames := nodup_map_name_modules hvalid h
  unfold neededFrom
  rw [edges_eq h, filter_edges _ _ hnames hm owner, map_symbol_edgesOf]
  exact eraseDups_of_nodup ((wellFormed_catalog h).names.sublist (List.filter_sublist.map _))

/-- The statements of a module are those of the other modules from which it needs something. -/
theorem mem_importsOf {p : Partition} {consumer : String} {i : Import} :
    i ∈ p.importsOf consumer ↔ i.owner ∈ p.moduleOrder ∧ i.owner ≠ consumer ∧
      i.names = neededFrom consumer i.owner p.edges ∧ i.names ≠ [] := by
  unfold importsOf imports
  rw [List.mem_filterMap]
  constructor
  · rintro ⟨owner, howner, hi⟩
    obtain ⟨howner, hne⟩ := List.mem_filter.mp howner
    dsimp only at hi
    split at hi
    · simp at hi
    · rename_i hnames
      obtain rfl := Option.some.inj hi
      exact ⟨howner, by simpa using hne, rfl, by simpa using hnames⟩
  · rintro ⟨howner, hne, hnames, hnonempty⟩
    refine ⟨i.owner, List.mem_filter.mpr ⟨howner, by simpa using hne⟩, ?_⟩
    rw [hnames] at hnonempty
    dsimp only
    rw [if_neg (by simpa using hnonempty), ← hnames]

theorem map_owner_importsOf_sublist (p : Partition) (consumer : String) :
    ((p.importsOf consumer).map Import.owner).Sublist p.moduleOrder := by
  have hall : ∀ order : List String,
      ((order.filterMap fun owner =>
        if (neededFrom consumer owner p.edges).isEmpty then none
        else some (Import.mk owner (neededFrom consumer owner p.edges))).map
          Import.owner).Sublist order := by
    intro order
    induction order with
    | nil => exact List.Sublist.refl _
    | cons owner order ih =>
      rw [List.filterMap_cons]
      split
      · exact ih.cons _
      · rename_i i hi
        split at hi
        · simp at hi
        · obtain rfl := Option.some.inj hi
          exact ih.cons_cons _
  exact (hall _).trans List.filter_sublist

/-- The imports of the module `m` link. -/
structure Linked (p : Partition) (config : Config) (m : Module) : Prop where
  /-- The references of the module and the names of its statements are the same. -/
  edge_iff : ∀ owner name, ⟨m.name, owner, name⟩ ∈ p.edges ↔
    ∃ i ∈ p.importsOf m.name, i.owner = owner ∧ name ∈ i.names
  /-- There is one statement for a module at most. -/
  owners : ((p.importsOf m.name).map Import.owner).Nodup
  /-- The statements stand in the order of the configuration. -/
  order : ((p.importsOf m.name).map Import.owner).Sublist config.moduleOrder
  /-- A statement names something, and not of the module itself. -/
  proper : ∀ i ∈ p.importsOf m.name, i.owner ≠ m.name ∧ i.names ≠ []
  /-- The module that is imported has a file, and declares the names. -/
  provided : ∀ i ∈ p.importsOf m.name, ∃ n ∈ p.modules, n.name = i.owner ∧ n.owned ≠ [] ∧
    ⟨fileName config i.owner, moduleContents p config n⟩ ∈ render p config ∧
    ∀ name ∈ i.names, name ∈ n.owned ∧
      ∃ s ∈ p.catalog.symbols, s.name = name ∧ s.bodyText.toList <:+: n.body.toList
  /-- The names are identifiers of the body, and the module does not declare them itself. -/
  needed : ∀ i ∈ p.importsOf m.name, ∀ name ∈ i.names,
    name ∈ identifiers m.body ∧ name ∉ m.owned
  /-- A statement names symbols by increasing offsets. -/
  named : ∀ i ∈ p.importsOf m.name, i.names.Nodup ∧ ∃ own : List Symbol,
    own.Sublist p.catalog.symbols ∧ own.Pairwise (fun a b => a.offset < b.offset) ∧
      i.names = own.map Symbol.name
  /-- No name is imported twice. -/
  once : ((p.importsOf m.name).flatMap Import.names).Nodup

section Linked

variable {m : Module} {i : Import}

theorem mem_neededFrom_iff (hvalid : config.Valid) (h : ofSource source origin config = .ok p)
    (hm : m ∈ p.modules) {owner name : String} :
    name ∈ neededFrom m.name owner p.edges ↔ ∃ s ∈ p.catalog.symbols, s.name = name ∧
      p.assignment.ownerOf s.name = some owner ∧ owner ≠ m.name ∧
        s.name ∈ identifiers m.body := by
  rw [neededFrom_eq hvalid h hm, List.mem_map]
  constructor
  · rintro ⟨s, hs, hname⟩
    obtain ⟨hs, hcond⟩ := List.mem_filter.mp hs
    exact ⟨s, hs, hname, of_decide_eq_true hcond⟩
  · rintro ⟨s, hs, hname, hcond⟩
    exact ⟨s, List.mem_filter.mpr ⟨hs, decide_eq_true hcond⟩, hname⟩

/-- A name in a statement belongs to a symbol of the module that is imported. -/
theorem exists_symbol_of_mem_names (hvalid : config.Valid)
    (h : ofSource source origin config = .ok p) (hm : m ∈ p.modules)
    (hi : i ∈ p.importsOf m.name) {name : String} (hname : name ∈ i.names) :
    ∃ s ∈ p.catalog.symbols, s.name = name ∧ p.assignment.ownerOf s.name = some i.owner ∧
      i.owner ≠ m.name ∧ s.name ∈ identifiers m.body := by
  rw [(mem_importsOf.mp hi).2.2.1] at hname
  exact (mem_neededFrom_iff hvalid h hm).mp hname

theorem edge_iff_of_ofSource (hvalid : config.Valid) (h : ofSource source origin config = .ok p)
    (hm : m ∈ p.modules) (owner name : String) : ⟨m.name, owner, name⟩ ∈ p.edges ↔
      ∃ i ∈ p.importsOf m.name, i.owner = owner ∧ name ∈ i.names := by
  rw [← mem_neededFrom]
  constructor
  · intro hneeded
    obtain ⟨s, hs, -, howner, hne, -⟩ := (mem_neededFrom_iff hvalid h hm).mp hneeded
    obtain ⟨n, hn, howner'⟩ := exists_owner h hs
    have hname : owner = n.name := Option.some.inj (howner.symm.trans howner')
    have horder : owner ∈ p.moduleOrder := by
      rw [moduleOrder_eq h, hname]
      exact ((mem_modules h).mp hn).1
    exact ⟨⟨owner, neededFrom m.name owner p.edges⟩,
      mem_importsOf.mpr ⟨horder, hne, rfl, List.ne_nil_of_mem hneeded⟩, rfl, hneeded⟩
  · rintro ⟨i, hi, rfl, hname⟩
    rwa [(mem_importsOf.mp hi).2.2.1] at hname

theorem nodup_map_owner_importsOf (hvalid : config.Valid)
    (h : ofSource source origin config = .ok p) (consumer : String) :
    ((p.importsOf consumer).map Import.owner).Nodup := by
  have hsub := map_owner_importsOf_sublist p consumer
  rw [moduleOrder_eq h] at hsub
  exact hvalid.nodup_moduleOrder.sublist hsub

theorem provided_of_ofSource (hvalid : config.Valid) (h : ofSource source origin config = .ok p)
    (hm : m ∈ p.modules) (hi : i ∈ p.importsOf m.name) :
    ∃ n ∈ p.modules, n.name = i.owner ∧ n.owned ≠ [] ∧
      ⟨fileName config i.owner, moduleContents p config n⟩ ∈ render p config ∧
      ∀ name ∈ i.names, name ∈ n.owned ∧
        ∃ s ∈ p.catalog.symbols, s.name = name ∧ s.bodyText.toList <:+: n.body.toList := by
  obtain ⟨name, hname⟩ := List.exists_mem_of_ne_nil _ (mem_importsOf.mp hi).2.2.2
  obtain ⟨s, hs, -, howner, -⟩ := exists_symbol_of_mem_names hvalid h hm hi hname
  obtain ⟨n, hn, howner'⟩ := exists_owner h hs
  have hnowner : n.name = i.owner := Option.some.inj (howner'.symm.trans howner)
  refine ⟨n, hn, hnowner, owned_ne_nil_of_ofSource h hn, ?_, fun name hname => ?_⟩
  · rw [← hnowner]
    exact List.mem_append_left _ (List.mem_map_of_mem hn)
  · obtain ⟨t, ht, rfl, htowner, -⟩ := exists_symbol_of_mem_names hvalid h hm hi hname
    rw [← hnowner] at htowner
    exact ⟨(name_mem_owned_iff h hn ht).mpr htowner, t, ht, rfl,
      bodyText_infix_body h hn (mem_symbolsOf.mpr ⟨ht, htowner⟩)⟩

theorem needed_of_ofSource (hvalid : config.Valid) (h : ofSource source origin config = .ok p)
    (hm : m ∈ p.modules) (hi : i ∈ p.importsOf m.name) {name : String} (hname : name ∈ i.names) :
    name ∈ identifiers m.body ∧ name ∉ m.owned := by
  obtain ⟨s, hs, rfl, howner, hne, hmem⟩ := exists_symbol_of_mem_names hvalid h hm hi hname
  refine ⟨hmem, fun howned => ?_⟩
  have howner' := (name_mem_owned_iff h hm hs).mp howned
  exact hne (Option.some.inj (howner.symm.trans howner'))

theorem named_of_ofSource (hvalid : config.Valid) (h : ofSource source origin config = .ok p)
    (hm : m ∈ p.modules) (hi : i ∈ p.importsOf m.name) :
    i.names.Nodup ∧ ∃ own : List Symbol, own.Sublist p.catalog.symbols ∧
      own.Pairwise (fun a b => a.offset < b.offset) ∧ i.names = own.map Symbol.name := by
  have hwf := wellFormed_catalog h
  rw [(mem_importsOf.mp hi).2.2.1, neededFrom_eq hvalid h hm]
  exact ⟨hwf.names.sublist (List.filter_sublist.map _), _, List.filter_sublist,
    hwf.offsets.sublist List.filter_sublist, rfl⟩

/-- Statements for different modules name symbols of different owners. -/
theorem nodup_flatMap_names (hvalid : config.Valid) (h : ofSource source origin config = .ok p)
    (hm : m ∈ p.modules) : ((p.importsOf m.name).flatMap Import.names).Nodup := by
  rw [List.nodup_flatMap]
  refine ⟨fun i hi => (named_of_ofSource hvalid h hm hi).1, ?_⟩
  have howners := List.pairwise_map.mp (nodup_map_owner_importsOf hvalid h m.name)
  refine List.Pairwise.imp_of_mem ?_ howners
  intro i j hi hj hne name hname hname'
  obtain ⟨s, -, rfl, howner, -⟩ := exists_symbol_of_mem_names hvalid h hm hi hname
  obtain ⟨t, -, hname, howner', -⟩ := exists_symbol_of_mem_names hvalid h hm hj hname'
  rw [hname] at howner'
  exact hne (Option.some.inj (howner.symm.trans howner'))

end Linked

/-- Every import of every module links. -/
theorem imports_link (hvalid : config.Valid) (h : ofSource source origin config = .ok p)
    {m : Module} (hm : m ∈ p.modules) : p.Linked config m where
  edge_iff := edge_iff_of_ofSource hvalid h hm
  owners := nodup_map_owner_importsOf hvalid h m.name
  order := moduleOrder_eq h ▸ map_owner_importsOf_sublist p m.name
  proper _ hi := ⟨(mem_importsOf.mp hi).2.1, (mem_importsOf.mp hi).2.2.2⟩
  provided _ hi := provided_of_ofSource hvalid h hm hi
  needed _ hi _ hname := needed_of_ofSource hvalid h hm hi hname
  named _ hi := named_of_ofSource hvalid h hm hi
  once := nodup_flatMap_names hvalid h hm

theorem sample_imports_link : ∃ p, ofSource sampleSource "sample" sampleConfig = .ok p ∧
    sampleConfig.Valid ∧ ∃ m ∈ p.modules, m.name = "rest" ∧
      ⟨m.name, "base", "a"⟩ ∈ p.edges ∧ p.Linked sampleConfig m := by
  obtain ⟨p, base, rest, hp, hmodules, -, hrest, hedges⟩ := exists_sample
  have hm : rest ∈ p.modules := by simp [hmodules]
  have hname : rest.name = "rest" := congrArg Prod.fst hrest
  exact ⟨p, hp, valid_sampleConfig, rest, hm, hname, by simp [hedges, hname],
    imports_link valid_sampleConfig hp hm⟩

end Partition

end SchemaModules
