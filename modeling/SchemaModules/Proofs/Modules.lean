import SchemaModules.Partition
import SchemaModules.Proofs.Extraction
import SchemaModules.Proofs.Placement
import SchemaModules.Proofs.ValidConfig

/-!
# Proofs: the modules of a partition

A module of a partition is made of the symbols that the assignment gives it, and is there only when it
owns one. The lemmas say so for each part of a module, so that the results about partitions need not
look at how partitions are built.
-/

namespace SchemaModules

/-- A text stands in every text that is put together from it and others. -/
theorem Text.infix_intercalate (sep : String) {xs : List String} {x : String} (hx : x ∈ xs) :
    x.toList <:+: (sep.intercalate xs).toList := by
  induction xs with
  | nil => simp at hx
  | cons y ys ih =>
    cases ys with
    | nil =>
      have heq : sep.intercalate [y] = x := by
        rw [List.mem_singleton.mp hx, String.intercalate_singleton]
      exact heq ▸ List.infix_refl _
    | cons z zs =>
      rw [String.intercalate_cons_cons, String.toList_append]
      rcases List.mem_cons.mp hx with rfl | hx
      · rw [String.toList_append, List.append_assoc]
        exact (List.prefix_append ..).isInfix
      · exact (ih hx).trans (List.suffix_append ..).isInfix

/-- What stands above the declaration of a symbol in a module: its comment and an empty line. -/
def Symbol.preamble (keepComments : Bool) : Symbol → String
  | .entity e =>
    match keepComments, e.leadingComment with
    | true, some comment => comment ++ "\n\n"
    | _, _ => ""
  | .derived _ => ""

theorem Symbol.moduleText_eq (keepComments : Bool) (s : Symbol) :
    s.moduleText keepComments = s.preamble keepComments ++ s.bodyText := by
  cases s with
  | derived a => exact String.empty_append.symm
  | entity e =>
    cases hcomment : e.leadingComment with
    | none => simp [moduleText, preamble, bodyText, hcomment]
    | some comment => cases keepComments <;> simp [moduleText, preamble, bodyText, hcomment]

namespace Partition

open Text

variable {source origin : String} {config : Config} {p : Partition}

/-- The symbols that the module of the given name owns, in source order. -/
def symbolsOf (p : Partition) (module : String) : List Symbol :=
  p.catalog.symbols.filter fun s => p.assignment.ownerOf s.name = some module

theorem mem_symbolsOf {module : String} {s : Symbol} :
    s ∈ p.symbolsOf module ↔
      s ∈ p.catalog.symbols ∧ p.assignment.ownerOf s.name = some module := by
  simp [symbolsOf]

/-- A partition of a source is the partition of its catalog. -/
theorem ofSource_eq_ok (h : ofSource source origin config = .ok p) :
    Catalog.extract source origin = .ok p.catalog ∧ p = ofCatalog p.catalog config := by
  unfold ofSource at h
  cases hc : Catalog.extract source origin with
  | error e => simp [hc, Except.map] at h
  | ok c =>
    obtain rfl : ofCatalog c config = p := by simpa [hc, Except.map] using h
    exact ⟨rfl, rfl⟩

theorem wellFormed_catalog (h : ofSource source origin config = .ok p) : p.catalog.WellFormed :=
  Catalog.wellFormed_of_extract (ofSource_eq_ok h).1

theorem assignment_eq (h : ofSource source origin config = .ok p) :
    p.assignment = (Assignment.ofCatalog p.catalog config).1 :=
  congrArg assignment (ofSource_eq_ok h).2

theorem moduleOrder_eq (h : ofSource source origin config = .ok p) :
    p.moduleOrder = config.moduleOrder :=
  congrArg moduleOrder (ofSource_eq_ok h).2

theorem edges_eq (h : ofSource source origin config = .ok p) :
    p.edges = Reference.edges p.modules p.catalog p.assignment := by
  have heq := (ofSource_eq_ok h).2
  rw [heq]
  rfl

theorem modules_eq (h : ofSource source origin config = .ok p) :
    p.modules = (config.moduleOrder.map
      (Module.ofCatalog p.catalog p.assignment config.keepLeadingComments)).filter
        fun m => !m.isEmpty := by
  have heq := (ofSource_eq_ok h).2
  rw [heq]
  rfl

/-- The modules are those of the module order that own something. -/
theorem mem_modules (h : ofSource source origin config = .ok p) {m : Module} :
    m ∈ p.modules ↔ m.name ∈ config.moduleOrder ∧ p.symbolsOf m.name ≠ [] ∧
      m = Module.ofCatalog p.catalog p.assignment config.keepLeadingComments m.name := by
  have hempty : ∀ name,
      (Module.ofCatalog p.catalog p.assignment config.keepLeadingComments name).isEmpty = false ↔
        p.symbolsOf name ≠ [] := by
    intro name
    simp [Module.ofCatalog, Module.isEmpty, symbolsOf]
  rw [modules_eq h, List.mem_filter, List.mem_map]
  constructor
  · rintro ⟨⟨name, hname, rfl⟩, hne⟩
    exact ⟨hname, (hempty name).mp (by simpa using hne), rfl⟩
  · rintro ⟨hname, hne, heq⟩
    refine ⟨⟨m.name, hname, heq.symm⟩, ?_⟩
    rw [heq]
    simpa using (hempty m.name).mpr hne

theorem exists_module (h : ofSource source origin config = .ok p) {name : String}
    (hname : name ∈ config.moduleOrder) {s : Symbol} (hs : s ∈ p.symbolsOf name) :
    ∃ m ∈ p.modules, m.name = name :=
  ⟨Module.ofCatalog p.catalog p.assignment config.keepLeadingComments name,
    (mem_modules h).mpr ⟨hname, List.ne_nil_of_mem hs, rfl⟩, rfl⟩

theorem owned_eq (h : ofSource source origin config = .ok p) {m : Module} (hm : m ∈ p.modules) :
    m.owned = (p.symbolsOf m.name).map Symbol.name := by
  rw [((mem_modules h).mp hm).2.2]
  rfl

theorem body_eq (h : ofSource source origin config = .ok p) {m : Module} (hm : m ∈ p.modules) :
    m.body = "\n\n".intercalate
      ((p.symbolsOf m.name).map (Symbol.moduleText config.keepLeadingComments)) := by
  rw [((mem_modules h).mp hm).2.2]
  rfl

/-- The body of a module holds the declarations of the symbols that it owns. -/
theorem bodyText_infix_body (h : ofSource source origin config = .ok p) {m : Module}
    (hm : m ∈ p.modules) {s : Symbol} (hs : s ∈ p.symbolsOf m.name) :
    s.bodyText.toList <:+: m.body.toList := by
  have htext : s.bodyText.toList <:+: (s.moduleText config.keepLeadingComments).toList := by
    rw [Symbol.moduleText_eq, String.toList_append]
    exact (List.suffix_append ..).isInfix
  rw [body_eq h hm]
  exact htext.trans (infix_intercalate _ (List.mem_map_of_mem hs))

theorem map_name_modules_sublist (h : ofSource source origin config = .ok p) :
    (p.modules.map Module.name).Sublist config.moduleOrder := by
  have hsub : p.modules.Sublist (config.moduleOrder.map
      (Module.ofCatalog p.catalog p.assignment config.keepLeadingComments)) := by
    rw [modules_eq h]
    exact List.filter_sublist
  have hnames := hsub.map Module.name
  rw [List.map_map] at hnames
  simpa [Function.comp_def, Module.ofCatalog] using hnames

theorem nodup_map_name_modules (hvalid : config.Valid)
    (h : ofSource source origin config = .ok p) : (p.modules.map Module.name).Nodup :=
  hvalid.nodup_moduleOrder.sublist (map_name_modules_sublist h)

theorem eq_of_name_eq (h : ofSource source origin config = .ok p) {m n : Module}
    (hm : m ∈ p.modules) (hn : n ∈ p.modules) (hname : m.name = n.name) : m = n := by
  rw [((mem_modules h).mp hm).2.2, ((mem_modules h).mp hn).2.2, hname]

/-- A module lists a symbol exactly when it owns it. -/
theorem name_mem_owned_iff (h : ofSource source origin config = .ok p) {m : Module}
    (hm : m ∈ p.modules) {s : Symbol} (hs : s ∈ p.catalog.symbols) :
    s.name ∈ m.owned ↔ p.assignment.ownerOf s.name = some m.name := by
  rw [owned_eq h hm, List.mem_map]
  constructor
  · rintro ⟨t, ht, hname⟩
    rw [← hname]
    exact (mem_symbolsOf.mp ht).2
  · exact fun howner => ⟨s, mem_symbolsOf.mpr ⟨hs, howner⟩, rfl⟩

/-- Every symbol is owned by a module that is there. -/
theorem exists_owner (h : ofSource source origin config = .ok p) {s : Symbol}
    (hs : s ∈ p.catalog.symbols) :
    ∃ m ∈ p.modules, p.assignment.ownerOf s.name = some m.name := by
  obtain ⟨name, hname, howner⟩ :=
    Assignment.exists_ownerOf config (wellFormed_catalog h) hs
  rw [← assignment_eq h] at howner
  obtain ⟨m, hm, rfl⟩ := exists_module h hname (mem_symbolsOf.mpr ⟨hs, howner⟩)
  exact ⟨m, hm, howner⟩

theorem nodup_owned (h : ofSource source origin config = .ok p) {m : Module} (hm : m ∈ p.modules) :
    m.owned.Nodup := by
  rw [owned_eq h hm]
  exact (wellFormed_catalog h).names.sublist (List.filter_sublist.map _)

/-! ## A sample -/

/-- Two tables, of which the second refers to the first, and a type derived from the first. -/
def sampleSource : String :=
  "// A\nexport const a = pgTable(\"a\", \x7b\x7d);\n" ++
    "export const b = pgTable(\"b\", \x7b x: a.id \x7d);\nexport type A = typeof a.$inferSelect;\n"

/-- A configuration with a bucket for the first table of the sample. -/
def sampleConfig : Config where
  defaultBucket := "rest"
  extension := "ts"
  indexName := "index"
  keepLeadingComments := true
  header := ""
  buckets := [⟨"base", ["a"]⟩]

theorem valid_sampleConfig : sampleConfig.Valid := by decide

/-- The sample has two modules, of which the second refers to the first. -/
theorem exists_sample : ∃ p base rest, ofSource sampleSource "sample" sampleConfig = .ok p ∧
    p.modules = [base, rest] ∧ (base.name, base.owned) = ("base", ["a", "A"]) ∧
    (rest.name, rest.owned) = ("rest", ["b"]) ∧ p.edges = [⟨"rest", "base", "a"⟩] := by
  have hsome : ((ofSource sampleSource "sample" sampleConfig).toOption.map fun p =>
      (p.modules.map fun m => (m.name, m.owned), p.edges)) =
        some ([("base", ["a", "A"]), ("rest", ["b"])], [⟨"rest", "base", "a"⟩]) := by
    decide +kernel
  obtain ⟨p, hp, hsample⟩ := exists_eq_ok_of_map_toOption hsome
  obtain ⟨hmodules, hedges⟩ := Prod.mk.inj hsample
  obtain ⟨base, others, hp', hbase, hothers⟩ := List.map_eq_cons_iff.mp hmodules
  obtain ⟨rest, last, rfl, hrest, hlast⟩ := List.map_eq_cons_iff.mp hothers
  obtain rfl : last = [] := List.map_eq_nil_iff.mp hlast
  exact ⟨p, base, rest, hp, hp', hbase, hrest, hedges⟩

end Partition

end SchemaModules
