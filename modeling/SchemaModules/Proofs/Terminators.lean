import SchemaModules.Proofs.Brackets
import SchemaModules.Proofs.Discovery

/-!
# Proofs: an entity ends at its own terminator

The end of a declaration was looked for in the working copy, by a lexer that starts at the builder call.
In the source it is where the live brackets of the call close, or a semicolon behind that, with only
spaces, tabs and alias statements before it.
-/

namespace SchemaModules.Catalog

open Text Lexical Declaration

/-- Text at byte `pos` of a source that is made of spaces, tabs and live alias statements. -/
inductive Room (source : List Char) : Nat → List Char → Prop
  | nil {pos : Nat} : Room source pos []
  | space {pos : Nat} {c : Char} {rest : List Char} (space : c = ' ' ∨ c = '\t')
      (tail : Room source (pos + 1) rest) : Room source pos (c :: rest)
  | statement {pos : Nat} {o : Occurrence AliasStatement} {rest : List Char}
      (live : o ∈ liveAliases source (inertSpans source)) (here : o.offset = pos)
      (tail : Room source (pos + byteLength o.text) rest) : Room source pos (o.text ++ rest)

/-- Two live aliases are the same, or one ends before the other starts. -/
theorem disjoint_of_mem_liveAliases {source : List Char} {a b : Occurrence AliasStatement}
    (ha : a ∈ liveAliases source (inertSpans source))
    (hb : b ∈ liveAliases source (inertSpans source)) :
    a = b ∨ a.offset + byteLength a.text ≤ b.offset ∨ b.offset + byteLength b.text ≤ a.offset :=
  disjoint_of_mem_occurrences consumes_aliasStatement (List.mem_filter.mp ha).1 (List.mem_filter.mp hb).1

/-- Spaces and line feeds are left of covered text. -/
theorem mem_blankSpansFrom_of_covered {spans : List Span} {pos : Nat} {text : List Char}
    (h : ∀ before c after, text = before ++ c :: after → Covered spans (pos + byteLength before))
    {d : Char} (hd : d ∈ blankSpansFrom spans pos text) : d = ' ' ∨ d = '\n' := by
  rw [blankSpansFrom_of_covered h] at hd
  obtain ⟨c, -, hd⟩ := List.mem_flatMap.mp hd
  exact eq_of_mem_blanked hd

/-- No alias reaches over byte `pos`. -/
def Free (source : List Char) (pos : Nat) : Prop :=
  ∀ s ∈ aliasSpans source, ¬ (s.start < pos ∧ pos < s.stop)

/-- No alias reaches over the end of another. -/
theorem free_of_mem_liveAliases {source : List Char} {o : Occurrence AliasStatement}
    (ho : o ∈ liveAliases source (inertSpans source)) : Free source (o.offset + byteLength o.text) := by
  rintro s hs ⟨hstart, hstop⟩
  obtain ⟨o', ho', rfl⟩ := List.mem_map.mp hs
  simp only [Occurrence.span] at hstart hstop
  rcases disjoint_of_mem_liveAliases ho ho' with rfl | hbefore | hafter <;> omega

/-- Where an alias covers the start of what is blanked out to room and a semicolon, it is part of the
room. -/
theorem exists_of_covered {source front text back room : List Char}
    (hsource : source = front ++ (text ++ back)) (hfree : Free source (byteLength front))
    (hcovered : Covered (aliasSpans source) (byteLength front))
    (hcopy : blankSpansFrom (aliasSpans source) (byteLength front) text = room ++ [';']) :
    ∃ o ∈ liveAliases source (inertSpans source), o.offset = byteLength front ∧
      ∃ more room', text = o.text ++ more ∧ room' <:+ room ∧
        blankSpansFrom (aliasSpans source) (byteLength front + byteLength o.text) more =
          room' ++ [';'] := by
  obtain ⟨s, hs, hstart, hstop⟩ := hcovered
  have hbounds := hfree s hs
  obtain ⟨o, ho, rfl⟩ := List.mem_map.mp hs
  simp only [Occurrence.span] at hstart hstop hbounds
  have hhere : o.offset = byteLength front := by omega
  refine ⟨o, ho, hhere, ?_⟩
  obtain ⟨rest, hrest, -⟩ := (mem_liveAliases_iff.mp ho).1.rest_eq hsource hhere
  -- no semicolon is left of what the alias covers
  have hnone : ∀ part more, o.text = part ++ more →
      ';' ∉ blankSpansFrom (aliasSpans source) (byteLength front) part := by
    intro part more hpart hmem
    have hblank : ';' = ' ' ∨ ';' = '\n' := by
      refine mem_blankSpansFrom_of_covered (fun before e after hsplit => ⟨_, hs, ?_⟩) hmem
      have he := e.utf8Size_pos
      rw [hsplit] at hpart
      simp only [Occurrence.span, hpart, byteLength_append, byteLength_cons]
      omega
    revert hblank
    decide
  rcases List.append_eq_append_iff.mp hrest with ⟨more, hmore, -⟩ | ⟨more, hmore, -⟩
  · refine absurd ?_ (hnone text more hmore)
    rw [hcopy]
    simp
  · refine ⟨more, ?_⟩
    rw [hmore, blankSpansFrom_append] at hcopy
    obtain ⟨room', hroom, hcopy'⟩ :=
      exists_of_not_mem_left hcopy (hnone o.text [] (List.append_nil _).symm)
    exact ⟨room', hmore, ⟨_, hroom.symm⟩, hcopy'⟩

/-- Where no alias covers the start of what is blanked out to room and a semicolon, it is a space, a tab
or the semicolon. -/
theorem exists_of_not_covered {spans : List Span} {pos : Nat} {c : Char} {text room : List Char}
    (hcovered : ¬ Covered spans pos)
    (hcopy : blankSpansFrom spans pos (c :: text) = room ++ [';']) :
    c = ';' ∧ text = [] ∨
      ∃ room', room = c :: room' ∧ blankSpansFrom spans (pos + c.utf8Size) text = room' ++ [';'] := by
  rw [blankSpansFrom_cons_of_not_covered hcovered] at hcopy
  cases room with
  | nil =>
    obtain ⟨rfl, hrest⟩ := List.cons.inj hcopy
    have hlen := congrArg byteLength hrest
    exact Or.inl ⟨rfl, byteLength_eq_zero.mp ((byteLength_blankSpansFrom ..).symm.trans hlen)⟩
  | cons d room =>
    obtain ⟨rfl, hrest⟩ := List.cons.inj hcopy
    exact Or.inr ⟨room, rfl, hrest⟩

/-- What is blanked out to spaces, tabs and a semicolon is room and a semicolon. -/
theorem exists_room {source : List Char} (n : Nat) {front text back room : List Char}
    (hn : text.length ≤ n) (hsource : source = front ++ (text ++ back))
    (hfree : Free source (byteLength front))
    (hcopy : blankSpansFrom (aliasSpans source) (byteLength front) text = room ++ [';'])
    (hroom : ∀ c ∈ room, c = ' ' ∨ c = '\t') :
    ∃ room', text = room' ++ [';'] ∧ Room source (byteLength front) room' := by
  -- on the length of the text, since an alias is passed over as a whole
  induction n generalizing front text room with
  | zero =>
    obtain rfl : text = [] := List.eq_nil_of_length_eq_zero (Nat.le_zero.mp hn)
    simp [blankSpansFrom] at hcopy
  | succ n ih =>
    by_cases hcovered : Covered (aliasSpans source) (byteLength front)
    · obtain ⟨o, ho, hhere, more, room', rfl, hsuffix, hcopy'⟩ :=
        exists_of_covered hsource hfree hcovered hcopy
      have hlen : more.length ≤ n := by
        have hne := (mem_liveAliases_iff.mp ho).1.text_ne_nil consumes_aliasStatement
        have hpos := List.length_pos_iff.mpr hne
        rw [List.length_append] at hn
        omega
      have hfree' : Free source (byteLength (front ++ o.text)) := by
        rw [byteLength_append, ← hhere]
        exact free_of_mem_liveAliases ho
      rw [← byteLength_append] at hcopy'
      obtain ⟨room'', rfl, hroom''⟩ := ih hlen (by rw [hsource]; simp only [List.append_assoc]) hfree'
        hcopy' fun c hc => hroom c (hsuffix.subset hc)
      rw [byteLength_append] at hroom''
      exact ⟨o.text ++ room'', (List.append_assoc ..).symm, .statement ho hhere hroom''⟩
    · cases text with
      | nil => simp [blankSpansFrom] at hcopy
      | cons c text =>
        rcases exists_of_not_covered hcovered hcopy with ⟨rfl, rfl⟩ | ⟨room', rfl, hcopy'⟩
        · exact ⟨[], rfl, .nil⟩
        · have hc := hroom c (List.mem_cons_self ..)
          have hsize : c.utf8Size = 1 := by
            rcases hc with rfl | rfl <;> rfl
          have hnext : byteLength front + c.utf8Size = byteLength (front ++ [c]) := by simp
          have hfree' : Free source (byteLength (front ++ [c])) := by
            rintro s hs ⟨hstart, hstop⟩
            rw [← hnext] at hstart hstop
            exact hcovered ⟨s, hs, by omega, by omega⟩
          rw [hnext] at hcopy'
          obtain ⟨room'', rfl, hroom''⟩ := ih (Nat.le_of_succ_le_succ hn) (by rw [hsource]; simp) hfree'
            hcopy' fun d hd => hroom d (List.mem_cons_of_mem _ hd)
          rw [← hnext, hsize] at hroom''
          exact ⟨c :: room'', rfl, .space hc hroom''⟩

/-! ## Where declarations end -/

/-- The parts of an entity's declaration, whose call holds `inner` between its brackets: the call ends
where its brackets close, and the declaration with it or at a semicolon behind it. -/
structure EndsAtTerminator (source : List Char) (e : Entity) (d : DeclarationParts)
    (inner : List Char) : Prop where
  /-- The parts make up the source. -/
  source_eq : source = d.before ++ (d.body ++ d.after)
  /-- The declaration starts at the entity's offset. -/
  offset_eq : e.offset = byteLength d.before
  /-- It is the entity's text. -/
  body_eq : e.bodyText.toList = d.body
  /-- The call opens where that of the entity's header opens. -/
  header : ∃ o, MetAt entityHeader (workingCopy source) o ∧ o.offset = e.offset ∧
    byteLength o.value.lead = byteLength d.lead
  /-- It starts with its opening bracket and ends with its closing bracket. -/
  call_eq : d.call = '(' :: (inner ++ [')'])
  /-- The opening bracket is live. -/
  opener_live : within (inertSpans source) (byteLength (d.before ++ d.lead)) = false
  /-- The closing bracket is live. -/
  closer_live : within (inertSpans source) (byteLength (d.before ++ (d.lead ++ '(' :: inner))) = false
  /-- From the opening bracket to the end of the declaration, the live brackets between the first and
  the last nest. -/
  brackets : ∃ brackets, Nested brackets ∧
    liveBrackets source (byteLength (d.before ++ d.lead)) (e.offset + byteLength d.body) =
      '(' :: (brackets ++ [')'])
  /-- Behind the closing bracket comes nothing, or room and one semicolon. -/
  term_eq : d.term = [] ∨ ∃ room, d.term = room ++ [';'] ∧
    Room source (byteLength (d.before ++ (d.lead ++ d.call))) room
  /-- There is no bracket behind the closing bracket. -/
  term_bracket : ∀ c ∈ d.term, isBracket c = false

/-- The live brackets from a call through its terminator are those of the call. -/
theorem liveBrackets_of_declares {source : List Char} {header : Occurrence EntityHeader} {stop : Nat}
    {d : DeclarationParts} (h : Declares source header stop d) :
    liveBrackets source (byteLength (d.before ++ d.lead)) (header.offset + byteLength d.body) =
      codeBrackets (Lexer.start.readingsBefore d.call none) := by
  have hsource : source = (d.before ++ d.lead) ++ ((d.call ++ d.term) ++ d.after) := by
    rw [List.append_assoc d.call]
    exact h.source_eq_call
  have hstop : header.offset + byteLength d.body =
      byteLength (d.before ++ d.lead) + byteLength (d.call ++ d.term) := by
    simp only [h.offset_eq, DeclarationParts.body, byteLength_append, Nat.add_assoc]
  have hstandalone : Standalone (d.call ++ d.term) :=
    h.closes.standalone.append (standalone_neutral h.neutral_term)
  obtain ⟨hread, hcall⟩ := h.closes.standalone .start rfl d.term.head?
  rw [hstop, hsource, liveBrackets_standalone hstandalone (h.inCode_call _), Lexer.readingsBefore_append,
    Option.or_none, hread, Lexer.readingsBefore_neutral hcall h.neutral_term, codeBrackets_append,
    codeBrackets_neutral h.neutral_term, List.append_nil]

/-- What a declaration has after its call is nothing, or room and one semicolon. -/
theorem term_eq_of_declares {source : List Char} {header : Occurrence EntityHeader} {stop : Nat}
    {d : DeclarationParts} (h : Declares source header stop d) {inner : List Char}
    (hcall : d.call = '(' :: (inner ++ [')'])) : d.term = [] ∨ ∃ room, d.term = room ++ [';'] ∧
      Room source (byteLength (d.before ++ (d.lead ++ d.call))) room := by
  have hpos : header.offset + byteLength d.lead + byteLength d.call =
      byteLength (d.before ++ (d.lead ++ d.call)) := by
    simp only [h.offset_eq, byteLength_append, Nat.add_assoc]
  have hterm := h.terminator
  rw [hpos] at hterm
  rcases hterm with hnil | ⟨room, hcopy, hroom⟩
  · refine Or.inl (byteLength_eq_zero.mp ?_)
    rw [← byteLength_blankSpansFrom, hnil, byteLength_nil]
  · have hfree : Free source (byteLength (d.before ++ (d.lead ++ d.call))) := by
      rintro s hs ⟨hstart, hstop⟩
      -- an alias around the end of the call would cover its closing bracket
      have hsource : source = (d.before ++ (d.lead ++ '(' :: inner)) ++ ')' :: (d.term ++ d.after) := by
        rw [h.source_eq, DeclarationParts.body, hcall]
        simp
      have hlen : byteLength (d.before ++ (d.lead ++ d.call)) =
          byteLength (d.before ++ (d.lead ++ '(' :: inner)) + 1 := by
        rw [hcall]
        simp only [byteLength_append, byteLength_cons, byteLength_nil]
        have : Char.utf8Size ')' = 1 := rfl
        omega
      have hneutral := (neutral_of_covered hsource ⟨s, hs, by omega, by omega⟩).2
      exact absurd hneutral (by decide)
    exact Or.inr (exists_room _ (Nat.le_refl _) h.source_eq_term hfree hcopy hroom)

/-- The declaration of every entity ends at its own terminator. -/
theorem endsAtTerminator_of_extract {source origin : String} {c : Catalog}
    (h : extract source origin = .ok c) {e : Entity} (he : e ∈ c.entities) :
    ∃ d inner, EndsAtTerminator source.toList e d inner := by
  obtain ⟨header, boundary, stop, d, hheader, hd, rfl, hbody⟩ := exists_declares_of_mem h he
  obtain ⟨inner, brackets, hcall, hopener, hcloser, hnested, hbrackets⟩ :=
    hd.closes.exists_of_call hd.head?_call
  have hwithin : ∀ before ch after, d.call = before ++ ch :: after →
      within (inertSpans source.toList) (byteLength (d.before ++ d.lead) + byteLength before) =
        !Lexer.start.readsCode before ch after.head? := by
    intro before ch after hsplit
    have hch := ch.utf8Size_pos
    rw [hd.source_eq_call]
    exact within_inertSpans_of_standalone hd.closes.standalone (hd.inCode_call _) hsplit (Nat.le_refl _)
      (by omega)
  refine ⟨d, inner, hd.source_eq, hd.offset_eq, hbody, ?_, hcall, ?_, ?_, ⟨brackets, hnested, ?_⟩, ?_, ?_⟩
  · exact ⟨header, metAt_of_mem_occurrences consumes_entityHeader hheader, rfl, hd.byteLength_lead.symm⟩
  · have hopen := hwithin [] '(' (inner ++ [')']) hcall
    rw [hopener] at hopen
    exact hopen
  · have hclose := hwithin ('(' :: inner) ')' [] hcall
    rw [List.head?_nil, hcloser, ← byteLength_append, List.append_assoc] at hclose
    exact hclose
  · rw [← hbrackets]
    exact liveBrackets_of_declares hd
  · exact term_eq_of_declares hd hcall
  · exact fun c hc => isBracket_of_isNeutral (hd.neutral_term c hc)

/-- A table with brackets in a string and in a comment, and with an alias between its call and its
semicolon. -/
def terminatedSource : String :=
  "export const a = pgTable(\"a\", \x7b x: \"(\" /* ] */ \x7d) " ++
    "export type A = typeof a.$inferSelect; ;\n"

theorem terminatedSource_endsAtTerminator :
    ∃ c e d inner, extract terminatedSource "sample" = .ok c ∧ c.entities = [e] ∧
      e.bodyText ++ "\n" = terminatedSource ∧ EndsAtTerminator terminatedSource.toList e d inner := by
  have hsome : ((extract terminatedSource "sample").toOption.map fun c =>
      c.entities.map fun e => e.bodyText ++ "\n") = some [terminatedSource] := by
    decide +kernel
  obtain ⟨c, hc, hentities⟩ := exists_eq_ok_of_map_toOption hsome
  obtain ⟨e, rest, he, htext, hrest⟩ := List.map_eq_cons_iff.mp hentities
  obtain rfl : rest = [] := List.map_eq_nil_iff.mp hrest
  obtain ⟨d, inner, hends⟩ := endsAtTerminator_of_extract hc (e := e) (by simp [he])
  exact ⟨c, e, d, inner, hc, he, htext, hends⟩

end SchemaModules.Catalog
