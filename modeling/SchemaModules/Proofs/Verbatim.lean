import SchemaModules.Proofs.BannerLines

/-!
# Proofs: extracted text is the text of the source

Every symbol has its text at its bytes of the source, and so has every comment line that an entity
carries. The lines of a comment stand between the earlier symbols and the entity, so that they are shared
with no symbol and with no other entity.
-/

namespace SchemaModules

open Text Lexical Declaration

/-- The span of the characters of a line. -/
def Text.Line.span (l : Line) : Span := ⟨l.start, l.stop⟩

namespace Catalog

/-- The entity carries these lines as its comment. They are lines of the source as far as the entity, and
stand apart from the text of all symbols. -/
structure Carries (source : List Char) (c : Catalog) (e : Entity) (ls : List Line) : Prop where
  /-- They are what the comment is made of. -/
  comment : e.leadingComment = joined ls
  /-- Each is a comment. -/
  isComment : ∀ l ∈ ls, l.isComment = true
  /-- They follow one another in the text before the entity, with only blank lines below them. -/
  run : ∃ above blank, linesFrom 0 (takeBytes e.offset source) = above ++ (ls ++ blank) ∧
    ∀ l ∈ blank, l.isBlank = true
  /-- They are whole lines of the source, if the entity starts its line. -/
  whole : startsLine source e.offset = true → ∀ l ∈ ls, l ∈ linesFrom 0 source
  /-- Their characters stand in the source, from the start of a line on. -/
  verbatim : ∀ l ∈ ls, ∃ before after, source = before ++ (l.text ++ after) ∧
    l.start = byteLength before ∧ '\n' ∉ l.text ∧ ∀ d ∈ before.getLast?, d = '\n'
  /-- They end before the entity. -/
  stop_le : ∀ l ∈ ls, l.stop ≤ e.offset
  /-- They start after every symbol that ends before the entity. -/
  le_start : ∀ l ∈ ls, ∀ s ∈ c.symbols, s.span.stop ≤ e.offset → s.span.stop ≤ l.start
  /-- They have no byte of a symbol. -/
  disjoint : ∀ l ∈ ls, ∀ s ∈ c.symbols, l.span.Disjoint s.span

/-- What is kept of the source in its catalog stands in the catalog as in the source. -/
structure KeepsText (source : List Char) (c : Catalog) : Prop where
  /-- The text of a symbol stands in the source at the symbol's offset. -/
  verbatim : ∀ s ∈ c.symbols, ∃ before after, source = before ++ (s.bodyText.toList ++ after) ∧
    s.span.start = byteLength before ∧ slice source s.span.start s.span.stop = s.bodyText.toList
  /-- Each entity ends before the next one starts. -/
  entities : c.entities.Pairwise fun e e' => (Symbol.entity e).span.stop ≤ (Symbol.entity e').span.start
  /-- Each alias ends before the next one starts. -/
  aliases : c.aliases.Pairwise fun a a' => (Symbol.derived a).span.stop ≤ (Symbol.derived a').span.start
  /-- The symbols are the entities and the aliases. -/
  perm : c.symbols.Perm (c.entities.map Symbol.entity ++ c.aliases.map Symbol.derived)
  /-- They stand at increasing offsets. -/
  offsets : c.symbols.Pairwise fun s t => s.offset < t.offset
  /-- Every entity carries the lines of its comment. -/
  carries : ∀ e ∈ c.entities, Carries source c e (c.carriedLines source e.offset)
  /-- The lines of one entity stand before those of the next. -/
  apart : c.entities.Pairwise fun e e' => ∀ l ∈ c.carriedLines source e.offset,
    ∀ l' ∈ c.carriedLines source e'.offset, l.stop < l'.start

section

variable {source origin : String} {c : Catalog}

theorem pairwise_offset_entities (h : extract source origin = .ok c) :
    c.entities.Pairwise fun e e' => e.offset < e'.offset := by
  obtain ⟨entities, hcollect, -, -, rfl⟩ := extract_eq_ok h
  have hheaders := pairwise_offset_occurrences consumes_entityHeader (workingCopy source.toList)
  have hsorted := (List.pairwise_map.mpr hheaders).sublist (map_offset_collectEntities_sublist hcollect)
  rw [entities_ofLists]
  exact List.pairwise_map.mp hsorted

theorem pairwise_offset_aliases (h : extract source origin = .ok c) :
    c.aliases.Pairwise fun a a' => a.offset < a'.offset := by
  obtain ⟨entities, -, -, -, rfl⟩ := extract_eq_ok h
  have hstatements := pairwise_offset_occurrences consumes_aliasStatement source.toList
  have hsorted := hstatements.filter fun o => !within (inertSpans source.toList) o.offset
  rw [← List.pairwise_map (f := Alias.offset), map_offset_aliases_ofLists, List.map_map]
  exact List.pairwise_map.mpr hsorted

/-! ## The lines that an entity carries -/

theorem mem_of_mem_openLines {source : List Char} {offset : Nat} {l : Line}
    (h : l ∈ c.openLines source offset) : l ∈ linesFrom 0 (takeBytes offset source) :=
  (List.dropWhile_sublist _).subset h

theorem carries_carriedLines (h : extract source origin = .ok c) {e : Entity} (he : e ∈ c.entities) :
    Carries source.toList c e (c.carriedLines source.toList e.offset) := by
  have hopen : ∀ l ∈ c.carriedLines source.toList e.offset, l ∈ c.openLines source.toList e.offset :=
    fun l hl => (mem_of_mem_trailingRun hl).1
  have hcomment : ∀ l ∈ c.carriedLines source.toList e.offset, l.isComment = true :=
    fun l hl => (mem_of_mem_trailingRun hl).2
  obtain ⟨after, hsource, hoff⟩ := exists_above h (entity_mem_symbols.mpr he)
  rw [Symbol.offset_entity] at hsource hoff
  have hbefore : ∀ l ∈ c.carriedLines source.toList e.offset, l.stop ≤ e.offset := by
    intro l hl
    have hle := (bounds_of_mem_linesFrom (mem_of_mem_openLines (hopen l hl))).2
    omega
  have hbehind : ∀ l ∈ c.carriedLines source.toList e.offset, ∀ s ∈ c.symbols, s.offset < e.offset →
      s.span.stop ≤ l.start := by
    intro l hl s hs hlt
    exact le_start_of_mem_openLines (hopen l hl) (mem_earlierSpans.mpr ⟨s, hs, hlt, rfl⟩)
  refine ⟨leadingComment_eq_joined h he, hcomment, ?_, ?_, ?_, hbefore, ?_, ?_⟩
  · obtain ⟨front, blank, hsplit, hblank⟩ :=
      exists_append_trailingRun Line.isBlank Line.isComment (c.openLines source.toList e.offset)
    obtain ⟨upper, hupper⟩ := List.dropWhile_suffix (l := linesFrom 0 (takeBytes e.offset source.toList))
      (Line.startsBeforeEnd (c.earlierSpans e.offset))
    refine ⟨upper ++ front, blank, ?_, hblank⟩
    rw [List.append_assoc, ← hupper]
    exact congrArg _ hsplit
  · intro hline l hl
    rw [← bannerLines_eq_carriedLines h he hline] at hl
    exact (List.takeWhile_sublist _).subset (mem_of_mem_trailingRun hl).1
  · intro l hl
    obtain ⟨before, rest, habove, hstart, hfeed, hlast, -⟩ :=
      exists_of_mem_linesFrom (mem_of_mem_openLines (hopen l hl))
    rw [Nat.zero_add] at hstart
    refine ⟨before, rest ++ (e.bodyText.toList ++ after), ?_, hstart, hfeed, hlast⟩
    refine hsource.trans ?_
    rw [habove, List.append_assoc, List.append_assoc]
    rfl
  · intro l hl s hs hle
    have hlt := start_lt_stop_of_mem h hs
    exact hbehind l hl s hs (Nat.lt_of_lt_of_le hlt hle)
  · intro l hl s hs
    by_cases hlt : s.offset < e.offset
    · exact Or.inr (hbehind l hl s hs hlt)
    · exact Or.inl (Nat.le_trans (hbefore l hl) (Nat.not_lt.mp hlt))

/-! ## The catalog -/

/-- Every catalog that is extracted keeps the text of its source. -/
theorem keepsText_of_extract (h : extract source origin = .ok c) : KeepsText source.toList c where
  verbatim := by
    intro s hs
    obtain ⟨after, hsource, hoff⟩ := exists_above h hs
    refine ⟨_, after, hsource, hoff, ?_⟩
    have hslice : slice (takeBytes s.offset source.toList ++ (s.bodyText.toList ++ after)) s.span.start
        s.span.stop = s.bodyText.toList :=
      slice_append hoff (congrArg (· + byteLength s.bodyText.toList) hoff)
    rwa [← hsource] at hslice
  entities := by
    refine (pairwise_offset_entities h).imp_of_mem ?_
    intro e e' he he' hlt
    exact stop_le_of_lt h he' (entity_mem_symbols.mpr he) hlt
  aliases := by
    refine (pairwise_offset_aliases h).imp_of_mem ?_
    intro a a' ha ha' hlt
    exact stop_le_of_kind_eq h (derived_mem_symbols.mpr ha) (derived_mem_symbols.mpr ha') rfl hlt
  perm := symbols_perm c
  offsets := (wellFormed_of_extract h).offsets
  carries := fun e he => carries_carriedLines h he
  apart := by
    refine (pairwise_offset_entities h).imp_of_mem ?_
    intro e e' he he' hlt l hl l' hl'
    have hbefore := (carries_carriedLines h he).stop_le l hl
    have hspan := start_lt_stop_of_mem h (entity_mem_symbols.mpr he)
    have hbehind := (carries_carriedLines h he').le_start l' hl' _ (entity_mem_symbols.mpr he)
      (stop_le_of_lt h he' (entity_mem_symbols.mpr he) hlt)
    have hstart : (Symbol.entity e).span.start = e.offset := rfl
    omega

end

/-- Two tables with comments, an alias between them, and characters of more than one byte. -/
def remarkedSource : String :=
  "// caf\u00e9\nexport const a = pgTable(\"a\", \x7b\x7d);\nexport type A = typeof a.$inferSelect;\n\n" ++
    "// \u20ac\nexport const b = pgTable(\"b\", \x7b\x7d);\n"

theorem remarkedSource_keepsText :
    ∃ c, extract remarkedSource "sample" = .ok c ∧
      c.entities.map (fun e => (e.offset, e.leadingComment)) =
        [(9, some "// caf\u00e9"), (91, some "// \u20ac")] ∧
      KeepsText remarkedSource.toList c := by
  have hsome : ((extract remarkedSource "sample").toOption.map fun c =>
      c.entities.map fun e => (e.offset, e.leadingComment)) =
        some [(9, some "// caf\u00e9"), (91, some "// \u20ac")] := by
    decide +kernel
  obtain ⟨c, hc, hcomments⟩ := exists_eq_ok_of_map_toOption hsome
  exact ⟨c, hc, hcomments, keepsText_of_extract hc⟩

end Catalog

end SchemaModules
