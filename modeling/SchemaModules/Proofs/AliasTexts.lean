import SchemaModules.Proofs.Discovery

/-!
# Proofs: the texts of aliases

An alias statement goes up to the word for its shape, over the blanks after it, and to the semicolon behind
these, if there is one. Nothing is asked of what comes then, so where the type goes on after the word, the
text of the alias is only the start of the declaration. It is the whole declaration exactly when the first
character after the word and the blanks is none with which a type goes on.
-/

namespace SchemaModules

open Text Lexical Declaration

/-- A character with which a type may go on. What is between does not count: an identifier goes on with the
type before it, even on a later line. -/
def Declaration.continuesType (c : Char) : Bool :=
  isIdentChar c || c = '[' || c = '&' || c = '|' || c = '.' || c = '<'

namespace Alias

/-- The words of the alias, up to the one for its shape, stand in the source between `before` and
`rest`. -/
structure Worded (source : List Char) (a : Alias) (before words rest : List Char) : Prop where
  /-- Where the words stand. -/
  source_eq : source = before ++ (words ++ rest)
  /-- The alias starts with them. -/
  offset_eq : a.offset = byteLength before
  /-- They say what the alias says. -/
  words : IsAliasCore ⟨a.name.toList, a.referencedEntity.toList, a.shape⟩ words

/-- The text of the alias is the given words and, of the `rest` after them, the blanks and the semicolon
behind these, if there is one. -/
def Takes (a : Alias) (words rest : List Char) : Prop :=
  ∃ room stop after, rest = room ++ (stop ++ after) ∧ allBlank room = true ∧
    IsAliasEnd stop after ∧ a.bodyText.toList = words ++ (room ++ stop)

/-- The text of the alias is the whole declaration: it ends with a semicolon, or before something with
which no type goes on. -/
def IsWhole (source : List Char) (a : Alias) : Prop :=
  a.bodyText.toList.getLast? = some ';' ∨
    Stops continuesType (dropBytes (a.offset + byteLength a.bodyText.toList) source)

end Alias

namespace Declaration

/-- The words of an alias end as both of the words for a shape do. -/
theorem IsAliasCore.getLast? {st : AliasStatement} {words : List Char} (h : IsAliasCore st words) :
    words.getLast? = some 't' := by
  obtain ⟨opening, gap, room₁, room₂, -, -, -, -, -, rfl⟩ := h
  have hshape : (shapeText st.shape).getLast? = some 't' := by cases st.shape <;> rfl
  simp only [List.getLast?_append, hshape, Option.some_or]

/-- Without the semicolon no alias statement ends with one. -/
theorem IsAliasCore.getLast?_append_ne {st : AliasStatement} {words room : List Char}
    (h : IsAliasCore st words) (hroom : allBlank room = true) :
    (words ++ room).getLast? ≠ some ';' := by
  rw [List.getLast?_append, h.getLast?]
  cases hlast : room.getLast? with
  | none => decide
  | some c =>
    intro heq
    obtain rfl := Option.some.inj heq
    exact not_mem_of_allBlank hroom (by decide) (List.mem_of_getLast? hlast)

/-- The words of an alias in their usual form, with single spaces. -/
theorem isAliasCore_spaced {name referenced : List Char} (hname : IsName name)
    (hreferenced : IsName referenced) (shape : Shape) : IsAliasCore ⟨name, referenced, shape⟩
      ("export type ".toList ++ (name ++ (" = typeof ".toList ++ (referenced ++
        (".$infer".toList ++ shapeText shape))))) := by
  have hgap : IsGap [' '] := ⟨by decide, by decide⟩
  refine ⟨_, [' '], [], [], ⟨[' '], [' '], [' '], [' '], hgap, hgap, rfl, rfl, hname, rfl⟩, hgap, rfl,
    rfl, hreferenced, ?_⟩
  simp

end Declaration

namespace Catalog

variable {source origin : String} {c : Catalog} {a : Alias}

/-- The words of an alias stand in the source where the alias starts. -/
theorem exists_worded (h : extract source origin = .ok c) (ha : a ∈ c.aliases) :
    ∃ before words rest, a.Worded source.toList before words rest := by
  obtain ⟨o, ho, rfl⟩ := (mem_aliases_iff h).mp ha
  obtain ⟨before, after, hsource, hoff, hmet⟩ := (mem_liveAliases_iff.mp ho).1
  obtain ⟨words, room, stop, hwords, -, -, htext⟩ := exists_of_aliasStatement hmet
  refine ⟨before, words, room ++ (stop ++ after), by rw [hsource, htext], hoff, ?_⟩
  simpa only [aliasOf, String.toList_ofList] using hwords

/-- After the words of an alias its text takes the blanks, and a semicolon behind them. -/
theorem bodyText_of_worded (h : extract source origin = .ok c) (ha : a ∈ c.aliases)
    {before words rest room stop after : List Char} (hworded : a.Worded source.toList before words rest)
    (hrest : rest = room ++ (stop ++ after)) (hroom : allBlank room = true)
    (hstop : IsAliasEnd stop after) : a.bodyText.toList = words ++ (room ++ stop) := by
  obtain ⟨o, ho, rfl⟩ := (mem_aliases_iff h).mp ha
  have hmet := (mem_liveAliases_iff.mp ho).1
  have hwords := aliasStatement_of_isAliasCore hworded.words hroom hstop
  simp only [aliasOf, String.toList_ofList] at hwords
  -- the statement that is met with these words is the one that the alias comes from
  have hmet' : MetAt aliasStatement source.toList
      ⟨o.offset, words ++ (room ++ stop), ⟨o.value.name, o.value.referenced, o.value.shape⟩⟩ := by
    refine ⟨before, after, ?_, hworded.offset_eq, ?_⟩
    · rw [hworded.source_eq, hrest]
      simp only [List.append_assoc]
    · simpa only [List.append_assoc] using hwords
  have hsame := hmet.eq_of_offset_eq hmet' rfl
  simpa only [aliasOf, String.toList_ofList] using congrArg Occurrence.text hsame

/-- The text of an alias is the whole declaration exactly when after its words and the blanks behind them
nothing comes with which a type goes on. In any case it takes no more than these and a semicolon. -/
theorem isWhole_iff_of_extract (h : extract source origin = .ok c) (ha : a ∈ c.aliases) :
    (∃ before words rest, a.Worded source.toList before words rest) ∧
      ∀ before words rest, a.Worded source.toList before words rest →
        a.Takes words rest ∧ (a.IsWhole source.toList ↔ Stops continuesType (blanks rest)) := by
  refine ⟨exists_worded h ha, fun before words rest hworded => ?_⟩
  obtain ⟨room, stop, hrest, hroom, hstop⟩ := exists_aliasEnd rest
  generalize (literal ";" (blanks rest)).getD (blanks rest) = after at hrest hstop
  have htext := bodyText_of_worded h ha hworded hrest hroom hstop
  refine ⟨⟨room, stop, after, hrest, hroom, hstop, htext⟩, ?_⟩
  have hafter : dropBytes (a.offset + byteLength a.bodyText.toList) source.toList = after := by
    have hsource : source.toList = (before ++ (words ++ (room ++ stop))) ++ after := by
      rw [hworded.source_eq, hrest]
      simp only [List.append_assoc]
    rw [hworded.offset_eq, htext, hsource, ← byteLength_append, dropBytes_append]
  rw [Alias.IsWhole, hafter, htext, hrest, (aliasEnd_eq hroom hstop).1]
  rcases hstop with rfl | ⟨rfl, -, -⟩
  · have hlast : (words ++ (room ++ [';'])).getLast? = some ';' := by simp
    exact ⟨fun _ => stops_cons (by decide) after, fun _ => Or.inl hlast⟩
  · rw [List.append_nil, or_iff_right (hworded.words.getLast?_append_ne hroom), List.nil_append]

/-- Two aliases, of which one adds a field to the rows of the table. -/
def extendedSource : String :=
  "export type A = typeof a.$inferSelect" ++ " & \x7b extra: string \x7d;\n" ++
    "export type B = typeof a.$inferInsert" ++ ";\nexport const a = pgTable(\"a\", \x7b\x7d);\n"

/-- The alias that adds a field. Its text ends before the field. -/
def extendedAlias : Alias := ⟨"A", "a", .read, "export type A = typeof a.$inferSelect ", true, 0⟩

/-- The alias that adds nothing. -/
def plainAlias : Alias := ⟨"B", "a", .write, "export type B = typeof a.$inferInsert;", true, 59⟩

theorem exists_extended : ∃ c, extract extendedSource "sample" = .ok c ∧
    c.aliases = [extendedAlias, plainAlias] := by
  have hsome : ((extract extendedSource "sample").toOption.map Catalog.aliases) =
      some [extendedAlias, plainAlias] := by
    decide +kernel
  exact exists_eq_ok_of_map_toOption hsome

theorem extendedSource_isWhole_iff : ∃ c, extract extendedSource "sample" = .ok c ∧
    (extendedAlias ∈ c.aliases ∧ ¬ extendedAlias.IsWhole extendedSource.toList) ∧
      plainAlias ∈ c.aliases ∧ plainAlias.IsWhole extendedSource.toList := by
  obtain ⟨c, hc, haliases⟩ := exists_extended
  have hname : ∀ name : List Char, name ≠ [] → name.all isWordChar = true → IsName name :=
    fun name hne hall => ⟨hne, List.all_eq_true.mp hall⟩
  have hmem : extendedAlias ∈ c.aliases ∧ plainAlias ∈ c.aliases := by simp [haliases]
  have hextended : extendedAlias.Worded extendedSource.toList []
      "export type A = typeof a.$inferSelect".toList
      (" & \x7b extra: string \x7d;\n".toList ++ ("export type B = typeof a.$inferInsert".toList ++
        ";\nexport const a = pgTable(\"a\", \x7b\x7d);\n".toList)) := by
    refine ⟨?_, rfl, ?_⟩
    · unfold extendedSource
      simp only [String.toList_append]
      rw [List.append_assoc, List.append_assoc, List.nil_append]
    · simpa [extendedAlias] using isAliasCore_spaced (hname ['A'] (by decide) (by decide))
        (hname ['a'] (by decide) (by decide)) .read
  have hplain : plainAlias.Worded extendedSource.toList
      ("export type A = typeof a.$inferSelect".toList ++ " & \x7b extra: string \x7d;\n".toList)
      "export type B = typeof a.$inferInsert".toList
      ";\nexport const a = pgTable(\"a\", \x7b\x7d);\n".toList := by
    refine ⟨?_, by decide +kernel, ?_⟩
    · unfold extendedSource
      simp only [String.toList_append]
      rw [List.append_assoc _ _ (String.toList _)]
    · simpa [plainAlias] using isAliasCore_spaced (hname ['B'] (by decide) (by decide))
        (hname ['a'] (by decide) (by decide)) .write
  have hcut := ((isWhole_iff_of_extract hc hmem.1).2 _ _ _ hextended).2
  have hwhole := ((isWhole_iff_of_extract hc hmem.2).2 _ _ _ hplain).2
  refine ⟨c, hc, ⟨hmem.1, fun h => ?_⟩, hmem.2, hwhole.mpr ?_⟩
  · exact absurd (hcut.mp h '&' (by decide +kernel)) (by decide)
  · intro d hd
    obtain rfl : ';' = d := Option.some.inj (Eq.trans (by decide +kernel) hd)
    decide

/-- The text of an alias may be only the start of the declaration. -/
theorem not_all_aliases_whole :
    ¬ ∀ (source origin : String) (c : Catalog), extract source origin = .ok c →
      ∀ a ∈ c.aliases, a.IsWhole source.toList := by
  intro hall
  obtain ⟨c, hc, haliases⟩ := exists_extended
  have hmem : extendedAlias ∈ c.aliases := by simp [haliases]
  rcases hall extendedSource "sample" c hc extendedAlias hmem with hlast | hstops
  · exact absurd hlast (by decide +kernel)
  · exact absurd (hstops '&' (by decide +kernel)) (by decide)

end Catalog

end SchemaModules
