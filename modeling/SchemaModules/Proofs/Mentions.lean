import SchemaModules.Proofs.Cycles
import SchemaModules.Proofs.Pieces

/-!
# Proofs: what comments add

A module is searched for names in its whole text, comments included. A comment stands on lines of its
own, so it can only add identifiers and never joins or splits one. Hence keeping comments adds
references, names in import statements and cycles, and takes none away.
-/

namespace SchemaModules

open Text Reference Relation

/-- The configuration in which comments are kept, or not. -/
def Config.keeping (c : Config) (keep : Bool) : Config := { c with keepLeadingComments := keep }

/-- The warning is about a cycle of imports. -/
def Warning.isAboutCycle : Warning → Bool
  | .importCycle _ => true
  | _ => false

namespace Reference

/-! ## The identifiers of a text that is put together -/

theorem identifiers_append (front back : String) :
    identifiers (front ++ "\n\n" ++ back) = identifiers front ++ identifiers back := by
  have hcut : (fun c => !isIdentChar c) '\n' = true := by decide
  have hfeeds : (front ++ "\n\n" ++ back).toList = front.toList ++ '\n' :: ([] ++ '\n' :: back.toList) := by
    rw [String.toList_append, String.toList_append, List.append_assoc]
    rfl
  unfold identifiers
  rw [hfeeds, runs_append_cons hcut, runs_append_cons hcut, List.map_append, List.map_append]
  rfl

theorem identifiers_intercalate (texts : List String) :
    identifiers ("\n\n".intercalate texts) = texts.flatMap identifiers := by
  induction texts with
  | nil => rfl
  | cons text texts ih =>
    cases texts with
    | nil => rw [String.intercalate_singleton, List.flatMap_singleton]
    | cons text' texts =>
      rw [String.intercalate_cons_cons, identifiers_append, ih]
      rfl

/-- The identifiers of a declaration are among those of the declaration and its comment. -/
theorem identifiers_moduleText_subset (s : Symbol) :
    identifiers (s.moduleText false) ⊆ identifiers (s.moduleText true) := by
  cases s with
  | derived a => exact List.Subset.refl _
  | entity e =>
    cases hcomment : e.leadingComment with
    | none => simp [Symbol.moduleText, hcomment]
    | some comment =>
      simp only [Symbol.moduleText, hcomment, identifiers_append]
      exact List.subset_append_right ..

/-! ## From modules to references -/

/-- The module `n` owns the same as `m`, and names at least the same. -/
structure Extends (m n : Module) : Prop where
  /-- The modules have the same name. -/
  name_eq : n.name = m.name
  /-- They own the same symbols. -/
  owned_eq : n.owned = m.owned
  /-- The identifiers of the one are among those of the other. -/
  identifiers_subset : identifiers m.body ⊆ identifiers n.body

theorem extends_ofCatalog (catalog : Catalog) (assignment : Assignment) (name : String) :
    Extends (Module.ofCatalog catalog assignment false name)
      (Module.ofCatalog catalog assignment true name) where
  name_eq := rfl
  owned_eq := rfl
  identifiers_subset := by
    unfold Module.ofCatalog
    dsimp only
    rw [identifiers_intercalate, identifiers_intercalate, List.flatMap_map, List.flatMap_map]
    intro identifier hmem
    obtain ⟨s, hs, hin⟩ := List.mem_flatMap.mp hmem
    exact List.mem_flatMap.mpr ⟨s, hs, identifiers_moduleText_subset s hin⟩

variable {catalog : Catalog} {assignment : Assignment}

theorem extends_modules (order : List String) : List.Forall₂ Extends
    ((order.map (Module.ofCatalog catalog assignment false)).filter fun m => !m.isEmpty)
    ((order.map (Module.ofCatalog catalog assignment true)).filter fun m => !m.isEmpty) := by
  induction order with
  | nil => exact .nil
  | cons name order ih =>
    have hextends := extends_ofCatalog catalog assignment name
    have hempty : (Module.ofCatalog catalog assignment true name).isEmpty =
        (Module.ofCatalog catalog assignment false name).isEmpty := by
      rw [Module.isEmpty, Module.isEmpty, hextends.owned_eq]
    rw [List.map_cons, List.map_cons, List.filter_cons, List.filter_cons, hempty]
    split
    · exact .cons hextends ih
    · exact ih

theorem filterMap_sublist_filterMap {α β : Type} {f g : α → Option β} {xs : List α}
    (h : ∀ x y, f x = some y → g x = some y) : (xs.filterMap f).Sublist (xs.filterMap g) := by
  induction xs with
  | nil => exact List.Sublist.refl _
  | cons x xs ih =>
    cases hf : f x with
    | some y =>
      rw [List.filterMap_cons_some hf, List.filterMap_cons_some (h x y hf)]
      exact ih.cons_cons y
    | none =>
      rw [List.filterMap_cons_none hf]
      cases hg : g x with
      | none => rwa [List.filterMap_cons_none hg]
      | some y =>
        rw [List.filterMap_cons_some hg]
        exact ih.cons y

theorem edgesOf_sublist {m n : Module} (h : Extends m n) :
    (edgesOf catalog assignment m).Sublist (edgesOf catalog assignment n) := by
  rw [edgesOf_eq, edgesOf_eq]
  refine filterMap_sublist_filterMap fun s e he => ?_
  obtain ⟨howner, hne, hmem, heq⟩ := referenceTo?_eq_some.mp he
  rw [← h.name_eq] at hne heq
  exact referenceTo?_eq_some.mpr ⟨howner, hne, h.identifiers_subset hmem, heq⟩

theorem edges_sublist {ms ns : List Module} (h : List.Forall₂ Extends ms ns) :
    (edges ms catalog assignment).Sublist (edges ns catalog assignment) := by
  unfold edges
  induction h with
  | nil => exact List.Sublist.refl _
  | cons hextends _ ih =>
    rw [List.flatMap_cons, List.flatMap_cons]
    exact (edgesOf_sublist hextends).append ih

/-- Where there is a cycle to report, there is one among more references. -/
theorem cycles_ne_nil_of_subset {order : List String} {edges edges' : List Edge} (h : edges ⊆ edges')
    (hcycles : cycles order edges ≠ []) : cycles order edges' ≠ [] := by
  rw [cycles_ne_nil_iff] at hcycles ⊢
  obtain ⟨m, hcycle⟩ := hcycles
  refine ⟨m, TransGen.mono (fun a b => ?_) m m hcycle⟩
  rintro ⟨ha, hb, symbol, hedge⟩
  exact ⟨ha, hb, symbol, h hedge⟩

end Reference

namespace Partition

variable {source origin : String} {config : Config} {p q : Partition}

/-- The partition `q`, in which comments are kept, has all references of `p`, in which they are not. -/
structure AddsReferences (p q : Partition) : Prop where
  /-- Every symbol has the same owner. -/
  assignment : q.assignment = p.assignment
  /-- The modules have the same names and own the same symbols. -/
  modules : (q.modules.map fun m => (m.name, m.owned)) = p.modules.map fun m => (m.name, m.owned)
  /-- The warnings about anything but cycles are the same. -/
  warnings : (q.warnings.filter fun w => !w.isAboutCycle) = p.warnings.filter fun w => !w.isAboutCycle
  /-- The references come back, in the same order. -/
  edges : p.edges.Sublist q.edges
  /-- The import statements come back, with at least the same names in the same order. -/
  imports : ∀ m ∈ p.modules, ∀ i ∈ p.importsOf m.name,
    ∃ j ∈ q.importsOf m.name, j.owner = i.owner ∧ i.names.Sublist j.names
  /-- Where a cycle is reported, one is still reported. -/
  cycles : p.cycles ≠ [] → q.cycles ≠ []

theorem filter_warnings (catalog : Catalog) (config : Config) :
    ((ofCatalog catalog config).warnings.filter fun w => !w.isAboutCycle) =
      (Assignment.ofCatalog catalog config).2.filter fun w => !w.isAboutCycle := by
  have hcycles : ∀ cycles : List (List String),
      (cycles.map Warning.importCycle).filter (fun w => !w.isAboutCycle) = [] := by
    intro cycles
    refine List.filter_eq_nil_iff.mpr fun w hw => ?_
    obtain ⟨c, -, rfl⟩ := List.mem_map.mp hw
    simp [Warning.isAboutCycle]
  unfold ofCatalog
  dsimp only
  rw [List.filter_append, hcycles, List.append_nil]

theorem extends_of_ofCatalog (catalog : Catalog) (config : Config) :
    List.Forall₂ Extends (ofCatalog catalog (config.keeping false)).modules
      (ofCatalog catalog (config.keeping true)).modules := extends_modules config.moduleOrder

theorem edges_sublist_of_ofCatalog (catalog : Catalog) (config : Config) :
    (ofCatalog catalog (config.keeping false)).edges.Sublist
      (ofCatalog catalog (config.keeping true)).edges :=
  edges_sublist (extends_of_ofCatalog catalog config)

/-- A statement is made again where modules name at least the same, with the names in source order. -/
theorem exists_import_of_extends (hvalid : config.Valid)
    (hp : ofSource source origin (config.keeping false) = .ok p)
    (hq : ofSource source origin (config.keeping true) = .ok q)
    (hcatalog : q.catalog = p.catalog) (hassignment : q.assignment = p.assignment) {m n : Module}
    (hm : m ∈ p.modules) (hn : n ∈ q.modules) (h : Extends m n) {i : Import}
    (hi : i ∈ p.importsOf m.name) :
    ∃ j ∈ q.importsOf m.name, j.owner = i.owner ∧ i.names.Sublist j.names := by
  obtain ⟨howner, hne, hnames, hnonempty⟩ := mem_importsOf.mp hi
  have horder : p.moduleOrder = q.moduleOrder := (moduleOrder_eq hp).trans (moduleOrder_eq hq).symm
  have hneeded : i.names.Sublist (neededFrom m.name i.owner q.edges) := by
    have hneeded' := neededFrom_eq (show (config.keeping true).Valid from hvalid) hq hn i.owner
    rw [hcatalog, hassignment, h.name_eq] at hneeded'
    rw [hnames, hneeded', neededFrom_eq (show (config.keeping false).Valid from hvalid) hp hm]
    refine (List.monotone_filter_right _ fun s hs => ?_).map _
    obtain ⟨howner, hne, hmem⟩ := of_decide_eq_true hs
    exact decide_eq_true ⟨howner, hne, h.identifiers_subset hmem⟩
  refine ⟨⟨i.owner, neededFrom m.name i.owner q.edges⟩, ?_, rfl, hneeded⟩
  refine mem_importsOf.mpr ⟨horder ▸ howner, hne, rfl, fun hnil => hnonempty ?_⟩
  exact List.sublist_nil.mp (hnil ▸ hneeded)

/-- Keeping comments makes no source fail or succeed, moves no symbol, and takes no reference away. -/
theorem comments_add_references (hvalid : config.Valid) (source origin : String) :
    (∃ e, ofSource source origin (config.keeping false) = .error e ∧
      ofSource source origin (config.keeping true) = .error e) ∨
    ∃ p q, ofSource source origin (config.keeping false) = .ok p ∧
      ofSource source origin (config.keeping true) = .ok q ∧ AddsReferences p q := by
  cases hextract : Catalog.extract source origin with
  | error e => exact Or.inl ⟨e, by rw [ofSource, hextract]; rfl, by rw [ofSource, hextract]; rfl⟩
  | ok c =>
    have hp : ofSource source origin (config.keeping false) =
        .ok (ofCatalog c (config.keeping false)) := by rw [ofSource, hextract]; rfl
    have hq : ofSource source origin (config.keeping true) =
        .ok (ofCatalog c (config.keeping true)) := by rw [ofSource, hextract]; rfl
    have hextends := extends_of_ofCatalog c config
    refine Or.inr ⟨_, _, hp, hq, rfl, ?_, ?_, edges_sublist_of_ofCatalog c config, ?_, ?_⟩
    · rw [← List.forall₂_eq_eq_eq, List.forall₂_map_left_iff, List.forall₂_map_right_iff]
      exact hextends.flip.imp fun n m hmn => by rw [hmn.name_eq, hmn.owned_eq]
    · rw [filter_warnings, filter_warnings]
      rfl
    · intro m hm i hi
      obtain ⟨n, hn, hmn⟩ := Catalog.exists_right_of_forall₂ hextends hm
      exact exists_import_of_extends hvalid hp hq rfl rfl hm hn hmn hi
    · exact cycles_ne_nil_of_subset (edges_sublist_of_ofCatalog c config).subset

/-- Two tables, of which the second refers to the first, and the first mentions the second in a comment. -/
def mentionSource : String :=
  "// see b\nexport const a = pgTable(\"a\", \x7b\x7d);\n" ++
    "export const b = pgTable(\"b\", \x7b x: a.id \x7d);\n"

theorem mentionSource_comments_add_references : sampleConfig.Valid ∧
    ∃ p q, ofSource mentionSource "sample" (sampleConfig.keeping false) = .ok p ∧
      ofSource mentionSource "sample" (sampleConfig.keeping true) = .ok q ∧
      (p.edges, p.cycles) = ([⟨"rest", "base", "a"⟩], []) ∧
      (q.edges, q.cycles) = ([⟨"base", "rest", "b"⟩, ⟨"rest", "base", "a"⟩], [["base", "rest"]]) ∧
      AddsReferences p q := by
  have hsome : ∀ keep, ((ofSource mentionSource "sample" (sampleConfig.keeping keep)).toOption.map
      fun p => (p.edges, p.cycles)) = some (if keep then
        ([⟨"base", "rest", "b"⟩, ⟨"rest", "base", "a"⟩], [["base", "rest"]])
      else ([⟨"rest", "base", "a"⟩], [])) := by
    decide +kernel
  obtain ⟨p, hp, hwithout⟩ := exists_eq_ok_of_map_toOption (hsome false)
  obtain ⟨q, hq, hwith⟩ := exists_eq_ok_of_map_toOption (hsome true)
  refine ⟨valid_sampleConfig, p, q, hp, hq, hwithout, hwith, ?_⟩
  rcases comments_add_references valid_sampleConfig mentionSource "sample" with
    ⟨e, he, -⟩ | ⟨p', q', hp', hq', hadds⟩
  · rw [hp] at he
    simp at he
  · rw [hp] at hp'
    rw [hq] at hq'
    rwa [Except.ok.inj hp', Except.ok.inj hq']

end Partition

end SchemaModules
