import SchemaModules.Proofs.Terminators

/-!
# Proofs: the spans of symbols

An entity keeps its text as it stands in the source, alias statements included, and every alias is a
symbol of its own. So an alias may stand inside an entity, whose text then holds it. No other two
symbols share a byte.
-/

namespace SchemaModules

open Text Lexical Declaration

/-- The two spans share no byte. -/
def Text.Span.Disjoint (a b : Span) : Prop := a.stop ≤ b.start ∨ b.stop ≤ a.start

instance (a b : Span) : Decidable (a.Disjoint b) :=
  inferInstanceAs (Decidable (a.stop ≤ b.start ∨ b.stop ≤ a.start))

/-- The span of a symbol's text in the source. -/
def Symbol.span (s : Symbol) : Span := ⟨s.offset, s.offset + byteLength s.bodyText.toList⟩

namespace Catalog

/-- The alias stands inside the entity, whose text holds that of the alias. -/
structure Embeds (e : Entity) (a : Alias) : Prop where
  /-- It starts after the entity. -/
  start_lt : (Symbol.entity e).span.start < (Symbol.derived a).span.start
  /-- It ends before the entity. -/
  stop_lt : (Symbol.derived a).span.stop < (Symbol.entity e).span.stop
  /-- Its text stands in the entity's text. -/
  verbatim : a.bodyText.toList <:+: e.bodyText.toList

variable {source origin : String} {c : Catalog}

/-- What the working copy keeps is not covered by an alias. -/
theorem not_covered_of_kept {source front back : List Char} {d : Char}
    (h : workingCopy source = front ++ d :: back) (hspace : d ≠ ' ') (hfeed : d ≠ '\n') :
    ¬ Covered (aliasSpans source) (byteLength front) := by
  have hmasked := masked_workingCopy source
  rw [h] at hmasked
  obtain ⟨front', back', hsource, hlen, -, -⟩ := hmasked.exists_kept hspace hfeed
  have hcut : blankSpans (front' ++ ([d] ++ back')) (aliasSpans source) = front ++ ([d] ++ back) := by
    rw [List.singleton_append, List.singleton_append, ← h, ← hsource]
    rfl
  have hkept := eq_blankSpansFrom_of_split hcut hlen.symm rfl
  intro hcovered
  have hmem : d ∈ blankSpansFrom (aliasSpans source) (byteLength front') [d] := by
    rw [← hkept]
    exact List.mem_singleton_self d
  refine (mem_blankSpansFrom_of_covered (fun before e after hsplit => ?_) hmem).elim hspace hfeed
  cases before with
  | nil => rwa [byteLength_nil, Nat.add_zero, hlen]
  | cons b before => simp at hsplit

section

variable {source : List Char} {header : Occurrence EntityHeader} {stop : Nat} {d : DeclarationParts}

/-- No alias covers the first byte of a header. -/
theorem not_covered_of_header (hheader : header ∈ occurrences entityHeader (workingCopy source)) :
    ¬ Covered (aliasSpans source) header.offset := by
  obtain ⟨before, rest, hcopy, hoff, -, hmet⟩ := exists_of_mem_occurrences consumes_entityHeader hheader
  obtain ⟨⟨tail, after, hlead, -, htext, -⟩, -⟩ := entityHeader_eq_some hmet
  rw [htext, hlead] at hcopy
  rw [hoff]
  exact not_covered_of_kept hcopy (by decide) (by decide)

/-- Where a declaration ends with the bracket that closes its call, no alias covers the bracket, which is
not neutral. -/
theorem not_covered_of_term_eq_nil (h : Declares source header stop d) (hterm : d.term = []) :
    ∃ last, stop = last + 1 ∧ ¬ Covered (aliasSpans source) last := by
  obtain ⟨inner, _, hcall, -⟩ := h.closes.exists_of_call h.head?_call
  have hsource : source = (d.before ++ (d.lead ++ '(' :: inner)) ++ ')' :: d.after := by
    rw [h.source_eq, DeclarationParts.body, hcall, hterm]
    simp
  refine ⟨byteLength (d.before ++ (d.lead ++ '(' :: inner)), ?_, fun hcovered => ?_⟩
  · have hbracket : Char.utf8Size ')' = 1 := rfl
    rw [h.stop_eq, h.offset_eq, DeclarationParts.body, hterm, hcall]
    simp only [byteLength_append, byteLength_cons, byteLength_nil]
    omega
  · exact absurd (neutral_of_covered hsource hcovered).2 (by decide)

/-- Where a declaration ends with a semicolon of the working copy, no alias covers the semicolon. -/
theorem not_covered_of_semicolon (h : Declares source header stop d) {room : List Char}
    (hcopy : blankSpansFrom (aliasSpans source) (header.offset + byteLength d.lead + byteLength d.call)
      d.term = room ++ [';']) : ∃ last, stop = last + 1 ∧ ¬ Covered (aliasSpans source) last := by
  have hfront : byteLength (d.before ++ (d.lead ++ d.call)) =
      header.offset + byteLength d.lead + byteLength d.call := by
    simp only [h.offset_eq, byteLength_append, Nat.add_assoc]
  have hkept : workingCopy source =
      (blankSpansFrom (aliasSpans source) 0 (d.before ++ (d.lead ++ d.call)) ++ room) ++
        ';' :: blankSpansFrom (aliasSpans source)
          (byteLength (d.before ++ (d.lead ++ d.call)) + byteLength d.term) d.after := by
    have hcopied : workingCopy source =
        blankSpans ((d.before ++ (d.lead ++ d.call)) ++ (d.term ++ d.after)) (aliasSpans source) := by
      rw [← h.source_eq_term]
      rfl
    rw [hcopied, blankSpans_append, hfront, hcopy]
    simp only [List.append_assoc, List.singleton_append]
  refine ⟨_, ?_, not_covered_of_kept hkept (by decide) (by decide)⟩
  have hterm : byteLength d.term = byteLength room + 1 := by
    rw [← byteLength_blankSpansFrom, hcopy, byteLength_append]
    rfl
  rw [byteLength_append, byteLength_blankSpansFrom, hfront, h.stop_eq, DeclarationParts.body]
  simp only [byteLength_append, hterm]
  omega

/-- No alias covers the last byte of a declaration. -/
theorem not_covered_of_declares (h : Declares source header stop d) :
    ∃ last, stop = last + 1 ∧ ¬ Covered (aliasSpans source) last := by
  rcases h.terminator with hnil | ⟨room, hcopy, -⟩
  · refine not_covered_of_term_eq_nil h (byteLength_eq_zero.mp ?_)
    rw [← byteLength_blankSpansFrom, hnil, byteLength_nil]
  · exact not_covered_of_semicolon h hcopy

end

/-- A text that stands within another's bounds stands in it. -/
theorem infix_of_bounds {source before text after before' text' after' : List Char}
    (h : source = before ++ (text ++ after)) (h' : source = before' ++ (text' ++ after'))
    (hstart : byteLength before ≤ byteLength before')
    (hstop : byteLength before' + byteLength text' ≤ byteLength before + byteLength text) :
    text' <:+: text := by
  obtain ⟨xs, rfl, hxs⟩ := exists_between_of_byteLength_le (h.symm.trans h') hstart
  rw [byteLength_append] at hstop
  rw [← List.append_assoc] at hxs
  have hle : byteLength (xs ++ text') ≤ byteLength text := by
    rw [byteLength_append]
    omega
  obtain ⟨ys, hys, -⟩ := exists_between_of_byteLength_le hxs.symm hle
  exact ⟨xs, ys, hys.symm⟩

/-- An entity and an alias share no byte, or the alias stands inside the entity. -/
theorem disjoint_or_embeds (h : extract source origin = .ok c) {e : Entity} (he : e ∈ c.entities)
    {a : Alias} (ha : a ∈ c.aliases) :
    (Symbol.entity e).span.Disjoint (Symbol.derived a).span ∨ Embeds e a := by
  obtain ⟨header, boundary, stop, d, hheader, hd, he, htext⟩ := exists_declares_of_mem h he
  have hoff : e.offset = header.offset := congrArg Entity.offset he
  have hstop : e.offset + byteLength e.bodyText.toList = stop := by
    rw [hoff, htext, ← hd.stop_eq]
  obtain ⟨last, rfl, hlast⟩ := not_covered_of_declares hd
  obtain ⟨o, ho, rfl⟩ := (mem_aliases_iff h).mp ha
  have hspan : o.span ∈ aliasSpans source.toList := List.mem_map_of_mem ho
  have hbody : (aliasOf o).bodyText.toList = o.text := String.toList_ofList
  by_cases hdisjoint : (Symbol.entity e).span.Disjoint
    (Symbol.derived { aliasOf o with
      resolved := c.entities.any fun e => e.name = (aliasOf o).referencedEntity }).span
  · exact Or.inl hdisjoint
  refine Or.inr ?_
  -- both ends of the entity are bytes that the alias does not cover
  have hbounds : e.offset < o.offset ∧ o.offset + byteLength o.text <
      e.offset + byteLength e.bodyText.toList := by
    have hout : ∀ pos, ¬ Covered (aliasSpans source.toList) pos →
        pos < o.offset ∨ o.offset + byteLength o.text ≤ pos := by
      intro pos hpos
      by_contra hin
      refine hpos ⟨o.span, hspan, ?_⟩
      simp only [Occurrence.span]
      omega
    have hfirst := hout _ (not_covered_of_header hheader)
    have hend := hout _ hlast
    simp only [Span.Disjoint, Symbol.span, Symbol.offset, Symbol.bodyText, hbody] at hdisjoint
    simp only [aliasOf] at hdisjoint
    omega
  refine ⟨hbounds.1, ?_, ?_⟩
  · simp only [Symbol.span, Symbol.offset, Symbol.bodyText, hbody]
    exact hbounds.2
  · obtain ⟨before, rest, hsource, hbefore, -⟩ := (mem_liveAliases_iff.mp ho).1
    show (aliasOf o).bodyText.toList <:+: _
    rw [hbody, htext]
    rw [htext, hoff] at hbounds
    refine infix_of_bounds hd.source_eq hsource ?_ ?_
    · rw [← hd.offset_eq, ← hbefore]
      exact Nat.le_of_lt hbounds.1
    · rw [← hd.offset_eq, ← hbefore]
      exact Nat.le_of_lt hbounds.2

/-- Of two entities, or two aliases, the one that starts first ends before the other starts. -/
theorem stop_le_of_kind_eq (h : extract source origin = .ok c) {s t : Symbol} (hs : s ∈ c.symbols)
    (ht : t ∈ c.symbols) (hkind : s.kind = t.kind) (hlt : s.offset < t.offset) :
    s.span.stop ≤ t.span.start := by
  cases s with
  | entity e =>
    cases t with
    | derived a => simp [Symbol.kind] at hkind
    | entity e' =>
      have he := entity_mem_symbols.mp hs
      obtain ⟨found, hfound, hentities⟩ := exists_collects h
      obtain ⟨f, hf, hdeclared⟩ := exists_left_of_forall₂ hentities (entity_mem_symbols.mp ht)
      have hoff := (stop_eq_of_declaredBy hfound hf hdeclared).1
      have hout := ((exists_entity_iff h (hfound.of_mem hf).1).mp ⟨e', entity_mem_symbols.mp ht, hoff⟩).2
      by_contra hle
      simp only [Symbol.span, Symbol.offset, Symbol.bodyText] at hle hlt
      exact hout ⟨e, he, by omega, by omega⟩
  | derived a =>
    cases t with
    | entity e => simp [Symbol.kind] at hkind
    | derived a' =>
      obtain ⟨o, ho, rfl⟩ := (mem_aliases_iff h).mp (derived_mem_symbols.mp hs)
      obtain ⟨o', ho', rfl⟩ := (mem_aliases_iff h).mp (derived_mem_symbols.mp ht)
      simp only [Symbol.span, Symbol.offset, Symbol.bodyText, aliasOf, String.toList_ofList] at hlt ⊢
      rcases disjoint_of_mem_liveAliases ho ho' with rfl | hbefore | hafter <;> omega

/-- Two symbols of a source share no byte, unless one is an alias that stands inside the other. -/
theorem spans_disjoint_or_embedded (h : extract source origin = .ok c) :
    c.symbols.Pairwise fun s t => s.span.Disjoint t.span ∨
      ∃ e a, s = .entity e ∧ t = .derived a ∧ Embeds e a := by
  refine (wellFormed_of_extract h).offsets.imp_of_mem fun {s t} hs ht hlt => ?_
  by_cases hkind : s.kind = t.kind
  · exact Or.inl (Or.inl (stop_le_of_kind_eq h hs ht hkind hlt))
  cases s with
  | entity e =>
    cases t with
    | entity e' => exact absurd rfl hkind
    | derived a =>
      rcases disjoint_or_embeds h (entity_mem_symbols.mp hs) (derived_mem_symbols.mp ht) with
        hdisjoint | hembeds
      · exact Or.inl hdisjoint
      · exact Or.inr ⟨e, a, rfl, rfl, hembeds⟩
  | derived a =>
    cases t with
    | derived a' => exact absurd rfl hkind
    | entity e =>
      rcases disjoint_or_embeds h (entity_mem_symbols.mp ht) (derived_mem_symbols.mp hs) with
        hdisjoint | hembeds
      · exact Or.inl hdisjoint.symm
      · exact absurd hembeds.start_lt (Nat.lt_asymm hlt)

/-- A table with an alias inside its builder call. -/
def nestedSource : String :=
  "export const a = pgTable(\"a\", \x7b\x7d, () => \x7b export type A = typeof a.$inferSelect; \x7d);\n"

theorem nestedSource_spans_disjoint_or_embedded :
    ∃ c, extract nestedSource "sample" = .ok c ∧ c.symbols.map Symbol.name = ["a", "A"] ∧
      c.symbols.Pairwise fun s t => s.span.Disjoint t.span ∨
        ∃ e a, s = .entity e ∧ t = .derived a ∧ Embeds e a := by
  have hsome : ((extract nestedSource "sample").toOption.map fun c => c.symbols.map Symbol.name) =
      some ["a", "A"] := by
    decide +kernel
  obtain ⟨c, hc, hnames⟩ := exists_eq_ok_of_map_toOption hsome
  exact ⟨c, hc, hnames, spans_disjoint_or_embedded hc⟩

/-- An alias may share bytes with an entity. -/
theorem not_all_spans_disjoint :
    ¬ ∀ (source origin : String) (c : Catalog), extract source origin = .ok c →
      ∀ e ∈ c.entities, ∀ a ∈ c.aliases,
        (Symbol.entity e).span.Disjoint (Symbol.derived a).span := by
  intro hall
  have hsome : ((extract nestedSource "sample").toOption.map fun c =>
      decide (∀ e ∈ c.entities, ∀ a ∈ c.aliases,
        (Symbol.entity e).span.Disjoint (Symbol.derived a).span)) = some false := by
    decide +kernel
  obtain ⟨c, hc, hshared⟩ := exists_eq_ok_of_map_toOption hsome
  exact of_decide_eq_false hshared (hall nestedSource "sample" c hc)

end Catalog

end SchemaModules
