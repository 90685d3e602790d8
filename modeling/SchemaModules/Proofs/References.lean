import SchemaModules.Proofs.Imports
import SchemaModules.Proofs.Pieces

/-!
# Proofs: which references are imported

A module imports a symbol of another when the symbol's name occurs whole in its body, where *whole* is
meant in the sense of identifier characters. Names are made of word characters, though, and the two
classes differ: a name with a combining mark is never imported.
-/

namespace SchemaModules

open Text Reference

namespace Reference

theorem mem_identifiers {name text : String} :
    name ∈ identifiers text ↔ name.toList ≠ [] ∧ (∀ c ∈ name.toList, isIdentChar c = true) ∧
      OccursWhole isIdentChar name.toList text.toList := by
  rw [← mem_runs_iff, identifiers, List.mem_map]
  constructor
  · rintro ⟨run, hrun, rfl⟩
    rwa [String.toList_ofList]
  · intro hrun
    exact ⟨name.toList, hrun, String.ofList_toList⟩

end Reference

/-- Where two classes agree on a text, a name occurs whole in the sense of both or of neither. -/
theorem Text.OccursWhole.congr {p q : Char → Bool} {name text : List Char}
    (hagree : ∀ c ∈ text, p c = q c) (h : OccursWhole p name text) : OccursWhole q name text := by
  obtain ⟨before, after, rfl, hbefore, hafter⟩ := h
  refine ⟨before, after, rfl, fun c hc => ?_, fun c hc => ?_⟩
  · have hmem : c ∈ before ++ name ++ after := by simp [List.mem_of_getLast? hc]
    rw [← hagree c hmem]
    exact hbefore c hc
  · have hmem : c ∈ before ++ name ++ after := by simp [List.mem_of_mem_head? hc]
    rw [← hagree c hmem]
    exact hafter c hc

namespace Partition

variable {source origin : String} {config : Config} {p : Partition} {m : Module} {s : Symbol}

/-- The number of import statements of the module `consumer` that name `name`. -/
def importCount (p : Partition) (consumer name : String) : Nat :=
  (p.importsOf consumer).countP fun i => i.names.contains name

/-- All statements that name a symbol are for its owner, so there is one at most. -/
theorem importCount_le_one (hvalid : config.Valid) (h : ofSource source origin config = .ok p)
    (hm : m ∈ p.modules) (hs : s ∈ p.catalog.symbols) : p.importCount m.name s.name ≤ 1 := by
  obtain ⟨n, -, howner⟩ := exists_owner h hs
  have hall : ∀ i ∈ p.importsOf m.name,
      i.names.contains s.name = true → (i.owner == n.name) = true := by
    intro i hi hname
    obtain ⟨t, -, htname, htowner, -⟩ :=
      exists_symbol_of_mem_names hvalid h hm hi (by simpa using hname)
    rw [htname, howner] at htowner
    simpa using (Option.some.inj htowner).symm
  -- and there is one statement for an owner at most
  have hcount := List.nodup_iff_count_le_one.mp
    (nodup_map_owner_importsOf hvalid h m.name) n.name
  rw [List.count_eq_countP, List.countP_map] at hcount
  exact Nat.le_trans (List.countP_mono_left hall) hcount

theorem importCount_pos_iff (hvalid : config.Valid) (h : ofSource source origin config = .ok p)
    (hm : m ∈ p.modules) (hs : s ∈ p.catalog.symbols) (hother : s.name ∉ m.owned) :
    0 < p.importCount m.name s.name ↔ s.name ∈ identifiers m.body := by
  obtain ⟨n, hn, howner⟩ := exists_owner h hs
  have hne : n.name ≠ m.name := by
    intro heq
    rw [heq] at howner
    exact hother ((name_mem_owned_iff h hm hs).mpr howner)
  unfold importCount
  rw [List.countP_pos_iff]
  constructor
  · rintro ⟨i, hi, hname⟩
    obtain ⟨t, -, htname, -, -, hmem⟩ :=
      exists_symbol_of_mem_names hvalid h hm hi (by simpa using hname)
    rwa [htname] at hmem
  · intro hmem
    have hneeded := (mem_neededFrom_iff hvalid h hm).mpr ⟨s, hs, rfl, howner, hne, hmem⟩
    obtain ⟨i, hi, -, hname⟩ :=
      (edge_iff_of_ofSource hvalid h hm n.name s.name).mp (mem_neededFrom.mp hneeded)
    exact ⟨i, hi, by simpa using hname⟩

/-- A module imports a symbol of another once if the symbol's name is made of identifier characters and
stands in the body with none next to it, and never otherwise. So a name that stands in the body with no
word character next to it is imported once if the two classes agree on the body. -/
theorem importCount_eq (hvalid : config.Valid) (h : ofSource source origin config = .ok p)
    (hm : m ∈ p.modules) (hs : s ∈ p.catalog.symbols) (hother : s.name ∉ m.owned) :
    (p.importCount m.name s.name = 1 ↔ (∀ c ∈ s.name.toList, isIdentChar c = true) ∧
      OccursWhole isIdentChar s.name.toList m.body.toList) ∧
    (p.importCount m.name s.name = 0 ↔ ¬((∀ c ∈ s.name.toList, isIdentChar c = true) ∧
      OccursWhole isIdentChar s.name.toList m.body.toList)) ∧
    ((∀ c ∈ m.body.toList, isWordChar c = isIdentChar c) →
      OccursWhole isWordChar s.name.toList m.body.toList → p.importCount m.name s.name = 1) := by
  have hname := Catalog.isName_of_extract (ofSource_eq_ok h).1 hs
  have hle := importCount_le_one hvalid h hm hs
  have hpos : 0 < p.importCount m.name s.name ↔ (∀ c ∈ s.name.toList, isIdentChar c = true) ∧
      OccursWhole isIdentChar s.name.toList m.body.toList := by
    rw [importCount_pos_iff hvalid h hm hs hother, mem_identifiers]
    exact and_iff_right hname.1
  refine ⟨?_, ?_, ?_⟩
  · rw [← hpos]
    omega
  · rw [← hpos]
    omega
  · intro hagree hword
    -- the name stands in the body, so the classes agree on its characters too
    have hident : ∀ c ∈ s.name.toList, isIdentChar c = true := by
      intro c hc
      obtain ⟨before, after, hbody, -, -⟩ := id hword
      have hmem : c ∈ m.body.toList := by
        rw [hbody]
        simp [hc]
      rw [← hagree c hmem]
      exact hname.2 c hc
    have hcount := hpos.mpr ⟨hident, hword.congr hagree⟩
    omega

theorem sample_importCount_eq : ∃ p, ofSource sampleSource "sample" sampleConfig = .ok p ∧
    sampleConfig.Valid ∧ ∃ m ∈ p.modules, ∃ s ∈ p.catalog.symbols, s.name = "a" ∧
      s.name ∉ m.owned ∧ p.importCount m.name s.name = 1 ∧
      OccursWhole isIdentChar s.name.toList m.body.toList := by
  obtain ⟨p, base, m, hp, hmodules, -, hrest, hedges⟩ := exists_sample
  have hm : m ∈ p.modules := by simp [hmodules]
  obtain ⟨hname, howned⟩ := Prod.mk.inj hrest
  have hedge : ⟨m.name, "base", "a"⟩ ∈ p.edges := by simp [hedges, hname]
  obtain ⟨s, hs, hsname, -, -, hident⟩ :=
    (mem_neededFrom_iff valid_sampleConfig hp hm).mp (mem_neededFrom.mpr hedge)
  have hother : s.name ∉ m.owned := by simp [howned, hsname]
  obtain ⟨hone, -, -⟩ := importCount_eq valid_sampleConfig hp hm hs hother
  have hwhole := (mem_identifiers.mp hident).2
  exact ⟨p, hp, valid_sampleConfig, m, hm, s, hs, hsname, hother, hone.mpr hwhole, hwhole.2⟩

/-- Two tables, of which the second refers to the first. The name of the first ends in a combining
accent. -/
def accentedSource : String :=
  "export const cafe\u0301 = pgTable(\"c\", \x7b\x7d);\n" ++
    "export const b = pgTable(\"b\", \x7b x: cafe\u0301.id \x7d);\n"

/-- A configuration that puts the two tables in different modules. -/
def accentedConfig : Config := { sampleConfig with buckets := [⟨"base", ["b"]⟩] }

/-- The second table is put in a module of its own, which imports nothing. -/
theorem exists_accented : ∃ p, ofSource accentedSource "accented" accentedConfig = .ok p ∧
    p.catalog.symbols.map Symbol.name = ["cafe\u0301", "b"] ∧
    (["b"], "export const b = pgTable(\"b\", \x7b x: cafe\u0301.id \x7d);", 0) ∈
      p.modules.map fun m => (m.owned, m.body, p.importCount m.name "cafe\u0301") := by
  have hsome : ((ofSource accentedSource "accented" accentedConfig).toOption.map fun p =>
      (p.catalog.symbols.map Symbol.name,
        p.modules.map fun m => (m.owned, m.body, p.importCount m.name "cafe\u0301"))) =
      some (["cafe\u0301", "b"],
        [(["b"], "export const b = pgTable(\"b\", \x7b x: cafe\u0301.id \x7d);", 0),
          (["cafe\u0301"], "export const cafe\u0301 = pgTable(\"c\", \x7b\x7d);", 0)]) := by
    decide +kernel
  cases hp : ofSource accentedSource "accented" accentedConfig with
  | error e => simp [hp, Except.toOption] at hsome
  | ok p =>
    rw [hp] at hsome
    obtain ⟨hsymbols, hmodules⟩ := Prod.mk.inj (Option.some.inj hsome)
    exact ⟨p, rfl, hsymbols, hmodules ▸ List.mem_cons_self ..⟩

/-- Not every symbol of another module whose name stands in a body with no word character next to it is
imported. -/
theorem not_all_references_imported : ¬ ∀ source origin config p, Config.Valid config →
    ofSource source origin config = .ok p → ∀ m ∈ p.modules, ∀ s ∈ p.catalog.symbols,
      s.name ∉ m.owned → OccursWhole isWordChar s.name.toList m.body.toList →
        p.importCount m.name s.name = 1 := by
  intro hall
  obtain ⟨p, hp, hsymbols, hmodules⟩ := exists_accented
  obtain ⟨m, hm, hparts⟩ := List.mem_map.mp hmodules
  obtain ⟨howned, hrest⟩ := Prod.mk.inj hparts
  obtain ⟨hbody, hcount⟩ := Prod.mk.inj hrest
  have hmem : "cafe\u0301" ∈ p.catalog.symbols.map Symbol.name := by simp [hsymbols]
  obtain ⟨s, hs, hname⟩ := List.mem_map.mp hmem
  have hother : s.name ∉ m.owned := by
    rw [hname, howned]
    decide
  have hwhole : OccursWhole isWordChar s.name.toList m.body.toList := by
    rw [hname, hbody]
    have hlast : "export const b = pgTable(\"b\", \x7b x: ".toList.getLast? = some ' ' := by decide
    have hhead : ".id \x7d);".toList.head? = some '.' := by decide
    refine ⟨"export const b = pgTable(\"b\", \x7b x: ".toList, ".id \x7d);".toList, ?_, ?_, ?_⟩
    · decide
    · intro c hc
      rw [hlast] at hc
      obtain rfl := Option.some.inj hc
      decide
    · intro c hc
      rw [hhead] at hc
      obtain rfl := Option.some.inj hc
      decide
  have hone := hall _ _ _ p (by decide) hp m hm s hs hother hwhole
  rw [hname, hcount] at hone
  exact absurd hone (by decide)

end Partition

end SchemaModules
