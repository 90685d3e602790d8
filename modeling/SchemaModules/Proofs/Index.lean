import SchemaModules.Output.Render
import SchemaModules.Proofs.Pieces
import SchemaModules.Proofs.Sharing
import SchemaModules.Text.Line
import SchemaModules.Text.Pattern

/-!
# Proofs: the index of a partition

The index is read back line by line. It has one export line for every module file and nothing else, so
what is exported through it is what the modules own, which is every symbol once.
-/

namespace SchemaModules

open Text

namespace Text

/-- The lines of a text that is put together from lines. -/
theorem lines_flatMap {α : Type} (line : α → List Char) (xs : List α)
    (h : ∀ x ∈ xs, '\n' ∉ line x) :
    lines (xs.flatMap fun x => line x ++ ['\n']) = xs.map line ++ [[]] := by
  induction xs with
  | nil => rfl
  | cons x xs ih =>
    have hx : ∀ c ∈ line x, decide (c = '\n') = false := by
      intro c hc
      have hne : c ≠ '\n' := fun heq => h x (List.mem_cons_self ..) (heq ▸ hc)
      simpa using hne
    have hxs := ih fun y hy => h y (List.mem_cons_of_mem _ hy)
    unfold lines at hxs ⊢
    rw [List.flatMap_cons, List.append_assoc, List.singleton_append,
      pieces_append_cons (decide_eq_true rfl), pieces_of_forall hx, hxs]
    rfl

end Text

/-- What a partition exports from the module of the given name. -/
def Partition.exportsOf (p : Partition) (module : String) : List String :=
  ((p.modules.find? fun m => m.name = module).map Module.owned).getD []

namespace Output

/-- The line of the index that exports everything of a module. -/
def exportLine (module : String) : List Char := ("export * from './" ++ module ++ "';").toList

/-- The module that a line of the index exports everything of. -/
def exportedModule? (line : List Char) : Option String := do
  let front ← literal "export * from './" line
  let back ← literal ";'" front.reverse
  return String.ofList back.reverse

/-- The modules that an index exports everything of, line by line. -/
def reexported (index : OutputFile) : List String :=
  (lines index.contents.toList).filterMap exportedModule?

theorem exportedModule?_exportLine (module : String) :
    exportedModule? (exportLine module) = some module := by
  have hfront : literal "export * from './" (exportLine module) =
      some (module.toList ++ "';".toList) := by
    unfold literal exportLine
    rw [List.isPrefixOf?_eq_some_iff_append_eq]
    simp only [String.toList_append, List.append_assoc]
  have hback : literal ";'" (module.toList ++ "';".toList).reverse = some module.toList.reverse := by
    unfold literal
    rw [List.isPrefixOf?_eq_some_iff_append_eq, List.reverse_append]
    rfl
  unfold exportedModule?
  rw [hfront, Option.bind_eq_bind, Option.bind_some, hback, Option.bind_some, List.reverse_reverse,
    String.ofList_toList]
  rfl

/-- `files` and `index` are the files of a partition, and the index accounts for them. -/
structure Indexed (p : Partition) (config : Config) (files : List OutputFile)
    (index : OutputFile) : Prop where
  /-- No two files have the same name. -/
  fileNames : ((files ++ [index]).map OutputFile.fileName).Nodup
  /-- The index is made of export lines, each with a line feed. -/
  lines_index : lines index.contents.toList =
    (p.modules.map fun m => exportLine m.name) ++ [[]]
  /-- Each file is exported by one line, in order. -/
  targets : files.map OutputFile.fileName = (reexported index).map (fileName config)
  /-- Every symbol is exported once. -/
  exported_once : ∀ s ∈ p.catalog.symbols, ((reexported index).flatMap p.exportsOf).count s.name = 1
  /-- Nothing but symbols is exported. -/
  exported_symbol : ∀ name ∈ (reexported index).flatMap p.exportsOf,
    ∃ s ∈ p.catalog.symbols, s.name = name
  /-- The file of a module declares what is exported from it. -/
  declared : ∀ m ∈ p.modules, ∀ name ∈ p.exportsOf m.name, ∃ s ∈ p.catalog.symbols, s.name = name ∧
    ∃ f ∈ files, f.fileName = fileName config m.name ∧ s.bodyText.toList <:+: f.contents.toList

end Output

variable {source origin : String} {config : Config} {p : Partition}

open SchemaModules.Partition Output

namespace Output

theorem fileName_injective (config : Config) : Function.Injective (fileName config) := by
  intro stem stem' h
  unfold fileName at h
  exact (String.append_left_inj _).mp ((String.append_left_inj _).mp h)

theorem exportsOf_name (h : ofSource source origin config = .ok p) {m : Module}
    (hm : m ∈ p.modules) : p.exportsOf m.name = m.owned := by
  unfold exportsOf
  cases hfind : p.modules.find? fun n => n.name = m.name with
  | none => simpa using List.find?_eq_none.mp hfind m hm
  | some n =>
    have hname : n.name = m.name := by simpa using List.find?_some hfind
    rw [eq_of_name_eq h (List.mem_of_find?_eq_some hfind) hm hname]
    rfl

/-- No module name has a line feed, so each module has a line of its own. -/
theorem lines_indexContents (hvalid : config.Valid) (h : ofSource source origin config = .ok p) :
    lines (indexContents p).toList = (p.modules.map fun m => exportLine m.name) ++ [[]] := by
  have htext : (indexContents p).toList =
      p.modules.flatMap fun m => exportLine m.name ++ ['\n'] := by
    unfold indexContents exportLine
    rw [String.toList_join, List.flatMap_map]
    simp only [String.toList_append, List.append_assoc]
    rfl
  rw [htext]
  apply lines_flatMap
  intro m hm hmem
  have hstem := hvalid.isFileStem_of_mem_moduleOrder ((mem_modules h).mp hm).1
  have hname : '\n' ∉ m.name.toList := by
    intro hc
    exact absurd ((Config.isFileStem_iff.mp hstem).2 '\n' hc) (by decide)
  simp [exportLine, hname] at hmem

theorem reexported_index (hvalid : config.Valid) (h : ofSource source origin config = .ok p)
    {stem : String} : reexported ⟨stem, indexContents p⟩ = p.modules.map Module.name := by
  have hmodules : ∀ ms : List Module,
      ((ms.map fun m : Module => exportLine m.name) ++ [[]]).filterMap exportedModule? =
        ms.map Module.name := by
    intro ms
    induction ms with
    | nil => rfl
    | cons m ms ih =>
      rw [List.map_cons, List.cons_append,
        List.filterMap_cons_some (exportedModule?_exportLine m.name), ih]
      rfl
  unfold reexported
  rw [lines_indexContents hvalid h]
  exact hmodules p.modules

theorem flatMap_exportsOf (h : ofSource source origin config = .ok p) :
    (p.modules.map Module.name).flatMap p.exportsOf = p.modules.flatMap Module.owned := by
  rw [List.flatMap_map]
  exact List.flatMap_congr fun m hm => exportsOf_name h hm

/-- No two modules list the same name, so no name is listed twice altogether. -/
theorem nodup_flatMap_owned (hvalid : config.Valid) (h : ofSource source origin config = .ok p) :
    (p.modules.flatMap Module.owned).Nodup := by
  rw [List.nodup_flatMap]
  refine ⟨fun m hm => nodup_owned h hm, ?_⟩
  have hnames := List.pairwise_map.mp (nodup_map_name_modules hvalid h)
  refine List.Pairwise.imp_of_mem ?_ hnames
  intro m n hm hn hne name hname hname'
  obtain ⟨s, hs, rfl, howner⟩ := exists_symbol_of_mem_owned h hm hname
  have howner' := (name_mem_owned_iff h hn hs).mp hname'
  rw [howner] at howner'
  exact hne (Option.some.inj howner')

/-- The text of a module file ends with the body of the module and a line feed. -/
theorem body_infix_moduleContents (p : Partition) (config : Config) (m : Module) :
    m.body.toList <:+: (moduleContents p config m).toList := by
  unfold moduleContents
  dsimp only
  rw [String.toList_append, String.toList_append]
  exact List.infix_append ..

theorem indexed_of_ofSource (hvalid : config.Valid) (h : ofSource source origin config = .ok p) :
    Indexed p config
      (p.modules.map fun m => ⟨fileName config m.name, moduleContents p config m⟩)
      ⟨fileName config config.indexName, indexContents p⟩ := by
  -- whoever follows the lines of the index meets the lists of the modules, one after the other
  have hexported : (reexported ⟨fileName config config.indexName, indexContents p⟩).flatMap
      p.exportsOf = p.modules.flatMap Module.owned := by
    rw [reexported_index hvalid h, flatMap_exportsOf h]
  refine ⟨?_, lines_indexContents hvalid h, ?_, ?_, ?_, ?_⟩
  · have hindex : config.indexName ∉ p.modules.map Module.name := fun hmem =>
      hvalid.checks.2.2.2.2 ((map_name_modules_sublist h).subset hmem)
    have hstems : (p.modules.map Module.name ++ [config.indexName]).Nodup :=
      List.nodup_append_comm.mp (List.nodup_cons.mpr ⟨hindex, nodup_map_name_modules hvalid h⟩)
    have hnames := hstems.map (fileName_injective config)
    simpa [List.map_map, Function.comp_def] using hnames
  · rw [reexported_index hvalid h, List.map_map, List.map_map]
    rfl
  · intro s hs
    rw [hexported]
    obtain ⟨m, hm, howner⟩ := exists_owner h hs
    refine List.count_eq_one_of_mem (nodup_flatMap_owned hvalid h) ?_
    exact List.mem_flatMap.mpr ⟨m, hm, (name_mem_owned_iff h hm hs).mpr howner⟩
  · intro name hname
    rw [hexported] at hname
    obtain ⟨m, hm, hname⟩ := List.mem_flatMap.mp hname
    obtain ⟨s, hs, heq, -⟩ := exists_symbol_of_mem_owned h hm hname
    exact ⟨s, hs, heq⟩
  · intro m hm name hname
    rw [exportsOf_name h hm] at hname
    obtain ⟨s, hs, heq, howner⟩ := exists_symbol_of_mem_owned h hm hname
    refine ⟨s, hs, heq, _, List.mem_map_of_mem hm, rfl, ?_⟩
    have hbody := bodyText_infix_body h hm (mem_symbolsOf.mpr ⟨hs, howner⟩)
    exact hbody.trans (body_infix_moduleContents p config m)

end Output

/-- The modules of a partition share out the catalog, and the index exports every symbol once. -/
theorem Partition.index_exports_catalog (hvalid : config.Valid)
    (h : ofSource source origin config = .ok p) :
    Catalog.extract source origin = .ok p.catalog ∧ p.SharesOut config ∧
      ∃ files index, render p config = files ++ [index] ∧ Indexed p config files index :=
  ⟨(ofSource_eq_ok h).1, sharesOut_of_ofSource hvalid h, _, _, rfl, indexed_of_ofSource hvalid h⟩

theorem Partition.sample_index_exports_catalog :
    ∃ p, ofSource sampleSource "sample" sampleConfig = .ok p ∧ sampleConfig.Valid ∧
      p.SharesOut sampleConfig ∧
      ∃ files index, render p sampleConfig = files ++ [index] ∧
        Indexed p sampleConfig files index := by
  obtain ⟨p, -, -, hp, -⟩ := exists_sample
  have hall := index_exports_catalog valid_sampleConfig hp
  exact ⟨p, hp, valid_sampleConfig, hall.2⟩

end SchemaModules
