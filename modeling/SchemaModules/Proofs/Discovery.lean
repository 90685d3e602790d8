import SchemaModules.Proofs.Declared
import SchemaModules.Proofs.Starts

/-!
# Proofs: discovery is exact

A catalog has an alias for every alias statement in code. It has an entity for every header in code that
no earlier entity contains, unless the header's table has a name that opens fields. Nothing that is
passed over hides a declaration.
-/

namespace SchemaModules.Catalog

open Text Lexical Declaration

/-- The catalog has what a source declares, and nothing else. -/
structure Discovers (source : List Char) (c : Catalog) : Prop where
  /-- The aliases stand where alias statements are met in code. -/
  alias_iff : ∀ p, (∃ a ∈ c.aliases, a.offset = p) ↔
    (∃ o, MetAt aliasStatement source o ∧ o.offset = p) ∧ within (inertSpans source) p = false
  /-- An alias says what the statement at its offset says. -/
  alias_eq : ∀ a ∈ c.aliases, ∀ o, MetAt aliasStatement source o → o.offset = a.offset →
    a.name.toList = o.value.name ∧ a.referencedEntity.toList = o.value.referenced ∧
      a.shape = o.value.shape ∧ a.bodyText.toList = o.text
  /-- The entities stand where headers are met in code outside earlier entities. -/
  entity_iff : ∀ o, MetAt entityHeader (workingCopy source) o → ¬ OpensFields o.value.physicalName →
    ((∃ e ∈ c.entities, e.offset = o.offset) ↔ within (inertSpans source) o.offset = false ∧
      ¬ ∃ e ∈ c.entities, e.offset < o.offset ∧
        o.offset < e.offset + byteLength e.bodyText.toList)
  /-- An entity stands where a header is met, and has its names. -/
  entity_met : ∀ e ∈ c.entities, ∃ o, MetAt entityHeader (workingCopy source) o ∧
    o.offset = e.offset ∧ e.name.toList = o.value.name ∧ e.physicalName.toList = o.value.physicalName

variable {source origin : String} {c : Catalog}

/-- The live alias statements are those that are met in code. -/
theorem mem_liveAliases_iff {source : List Char} {o : Occurrence AliasStatement} :
    o ∈ liveAliases source (inertSpans source) ↔
      MetAt aliasStatement source o ∧ within (inertSpans source) o.offset = false := by
  rw [liveAliases, List.mem_filter, mem_occurrences_aliasStatement_iff, Bool.not_eq_true']

/-- The span of an entity goes to the byte at which its declaration ends. -/
theorem stop_eq_of_declaredBy {source : List Char} {found : List (Occurrence EntityHeader × Nat)}
    (h : Collects (workingCopy source) (inertSpans source) 0
      (occurrences entityHeader (workingCopy source)) found)
    {f : Occurrence EntityHeader × Nat} (hf : f ∈ found) {e : Entity} (he : DeclaredBy source f e) :
    e.offset = f.1.offset ∧ e.offset + byteLength e.bodyText.toList = f.2 := by
  obtain ⟨boundary, rfl⟩ := he
  obtain ⟨hheader, hlive, hends⟩ := h.of_mem hf
  obtain ⟨d, hd⟩ := exists_declares hheader hlive hends
  refine ⟨rfl, ?_⟩
  show f.1.offset + byteLength (String.ofList (slice source f.1.offset f.2)).toList = f.2
  rw [String.toList_ofList, hd.slice_eq, ← hd.stop_eq]

/-- A header of the search starts an entity when it is live and no earlier entity contains it. -/
theorem exists_entity_iff (h : extract source origin = .ok c) {o : Occurrence EntityHeader}
    (ho : o ∈ occurrences entityHeader (workingCopy source.toList)) :
    (∃ e ∈ c.entities, e.offset = o.offset) ↔ within (inertSpans source.toList) o.offset = false ∧
      ¬ ∃ e ∈ c.entities, e.offset < o.offset ∧
        o.offset < e.offset + byteLength e.bodyText.toList := by
  obtain ⟨found, hfound, hentities⟩ := exists_collects h
  have hsorted := pairwise_offset_occurrences consumes_entityHeader (workingCopy source.toList)
  have hiff := hfound.exists_mem_iff hsorted ho
  have hstarts : (∃ e ∈ c.entities, e.offset = o.offset) ↔ ∃ stop, (o, stop) ∈ found := by
    constructor
    · rintro ⟨e, he, hoff⟩
      obtain ⟨f, hf, hdeclared⟩ := exists_left_of_forall₂ hentities he
      have hsame : f.1 = o := by
        have hmet := metAt_of_mem_occurrences consumes_entityHeader (hfound.of_mem hf).1
        refine hmet.eq_of_offset_eq (metAt_of_mem_occurrences consumes_entityHeader ho) ?_
        rw [← (stop_eq_of_declaredBy hfound hf hdeclared).1, hoff]
      exact ⟨f.2, hsame ▸ hf⟩
    · rintro ⟨stop, hstop⟩
      obtain ⟨e, he, hdeclared⟩ := exists_right_of_forall₂ hentities hstop
      exact ⟨e, he, (stop_eq_of_declaredBy hfound hstop hdeclared).1⟩
  rw [hstarts, hiff]
  constructor
  · rintro ⟨-, hlive, hout⟩
    refine ⟨hlive, fun ⟨e, he, hbefore, hinside⟩ => ?_⟩
    obtain ⟨f, hf, hdeclared⟩ := exists_left_of_forall₂ hentities he
    obtain ⟨hoff, hstop⟩ := stop_eq_of_declaredBy hfound hf hdeclared
    have := hout f hf (by omega)
    omega
  · rintro ⟨hlive, hout⟩
    refine ⟨Nat.zero_le _, hlive, fun f hf hbefore => ?_⟩
    obtain ⟨e, he, hdeclared⟩ := exists_right_of_forall₂ hentities hf
    obtain ⟨hoff, hstop⟩ := stop_eq_of_declaredBy hfound hf hdeclared
    by_contra hlt
    exact hout ⟨e, he, by omega, by omega⟩

/-- The catalog of a source has what the source declares. -/
theorem discovers_of_extract (h : extract source origin = .ok c) : Discovers source.toList c where
  alias_iff p := by
    constructor
    · rintro ⟨a, ha, rfl⟩
      obtain ⟨o, ho, rfl⟩ := (mem_aliases_iff h).mp ha
      obtain ⟨hmet, hlive⟩ := mem_liveAliases_iff.mp ho
      exact ⟨⟨o, hmet, rfl⟩, hlive⟩
    · rintro ⟨⟨o, hmet, rfl⟩, hlive⟩
      exact ⟨_, (mem_aliases_iff h).mpr ⟨o, mem_liveAliases_iff.mpr ⟨hmet, hlive⟩, rfl⟩, rfl⟩
  alias_eq a ha o hmet hoff := by
    obtain ⟨o', ho', rfl⟩ := (mem_aliases_iff h).mp ha
    obtain rfl := hmet.eq_of_offset_eq (mem_liveAliases_iff.mp ho').1 hoff
    simp [aliasOf]
  entity_iff o hmet hname := exists_entity_iff h (mem_occurrences_entityHeader hmet hname)
  entity_met e he := by
    obtain ⟨found, hfound, hentities⟩ := exists_collects h
    obtain ⟨f, hf, boundary, rfl⟩ := exists_left_of_forall₂ hentities he
    have hmet := metAt_of_mem_occurrences consumes_entityHeader (hfound.of_mem hf).1
    exact ⟨f.1, hmet, rfl, by simp [entityOf], by simp [entityOf]⟩

/-- A table that is commented out, one that is not, and a type in a comment and one outside. -/
def commentedSource : String :=
  "// export const a = pgTable(\"a\", \x7b\nexport const b = pgTable(\"b\", \x7b\x7d);\n" ++
    "/* export type A = typeof a.$inferSelect; */ export type B = typeof b.$inferSelect;\n"

theorem commentedSource_discovers_of_extract :
    ∃ c, extract commentedSource "sample" = .ok c ∧ Discovers commentedSource.toList c ∧
      c.symbols.map Symbol.name = ["b", "B"] := by
  have hsome : ((extract commentedSource "sample").toOption.map fun c => c.symbols.map Symbol.name) =
      some ["b", "B"] := by
    decide +kernel
  obtain ⟨c, hc, hnames⟩ := exists_eq_ok_of_map_toOption hsome
  exact ⟨c, hc, discovers_of_extract hc, hnames⟩

end SchemaModules.Catalog
