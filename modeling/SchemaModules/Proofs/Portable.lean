import SchemaModules.Proofs.Spans

/-!
# Proofs: declarations that can be moved

A declaration is *portable* when it is found in the same way wherever it stands in code at the start of
a line. Every alias statement is, up to the blanks that it takes at its end. The declaration of an
entity is portable when no alias shares a byte with it: then the working copy has it as the source has.
-/

namespace SchemaModules

open Text Lexical Declaration

namespace Lexical.Lexer

/-- In a string the lexer stays until the quote comes. -/
theorem mode_advance_quoted {lx : Lexer} {quote : Char} (hmode : lx.mode = .quoted quote)
    (hquote : quote ≠ backtick) {cs : List Char} (hcs : ∀ c ∈ cs, c ≠ quote) (next : Option Char) :
    (lx.advance cs next).mode = .quoted quote := by
  induction cs generalizing lx with
  | nil => exact hmode
  | cons c cs ih =>
    refine ih ?_ fun d hd => hcs d (List.mem_cons_of_mem _ hd)
    have hc := hcs c (List.mem_cons_self ..)
    unfold step stepQuoted
    by_cases hpaired : lx.paired = true
    · simp [hpaired, hmode]
    · by_cases hescape : c = '\\'
      · simp [hpaired, hmode, hescape]
      · simp [hpaired, hmode, hescape, hquote, hc]

end Lexical.Lexer

namespace Declaration

/-- After the bracket that opens a call and the quote behind it, no bracket is code before the quote
comes again. -/
theorem readsCode_quoted {room inside : List Char} {q c : Char} (hroom : allBlank room = true)
    (hq : isQuote q = true) (hinside : ∀ d ∈ inside, isInside d = true) (next : Option Char) :
    Lexer.start.readsCode ('(' :: (room ++ q :: inside)) c next = false := by
  have hcases : q = '"' ∨ q = '\'' := by simpa [isQuote] using hq
  have hne : q ≠ backtick := by
    rcases hcases with rfl | rfl <;> decide
  have hopen : ∀ o, (Lexer.start.step '(' o) = Lexer.start := by
    intro o
    have hbracket : '(' ≠ backtick := by decide
    simp [Lexer.start, Lexer.step, Lexer.stepCode, hbracket]
  have hquote : ∀ o, (Lexer.start.step q o).mode = .quoted q := by
    intro o
    rcases hcases with rfl | rfl <;> simp [Lexer.start, Lexer.step, Lexer.stepCode]
  have hmode : (Lexer.start.advance ('(' :: (room ++ q :: inside)) (some c)).mode = .quoted q := by
    rw [Lexer.advance, hopen, Lexer.advance_append,
      Lexer.advance_neutral rfl (neutral_of_allBlank hroom), Lexer.advance]
    refine Lexer.mode_advance_quoted (hquote _) hne (fun d hd heq => ?_) _
    have hin := hinside d hd
    rw [isInside, heq, hq] at hin
    exact Bool.noConfusion hin
  have hout : (Lexer.start.advance ('(' :: (room ++ q :: inside)) (some c)).inCode = false := by
    unfold Lexer.inCode
    rw [hmode]
    simp
  unfold Lexer.readsCode
  dsimp only
  rw [hout, Bool.false_and]

/-- In what a header takes of a call, no closing bracket is code. -/
theorem readsCode_columns {room₁ room₂ room₃ name before after : List Char} {q q' : Char}
    (h : '(' :: (room₁ ++ q :: (name ++ q' :: (room₂ ++ ',' :: (room₃ ++ ['\x7b'])))) =
      before ++ ')' :: after)
    (hroom₁ : allBlank room₁ = true) (hq : isQuote q = true) (hname : ∀ c ∈ name, isInside c = true)
    (hq' : isQuote q' = true) (hroom₂ : allBlank room₂ = true) (hroom₃ : allBlank room₃ = true)
    (next : Option Char) : Lexer.start.readsCode before ')' next = false := by
  have hnotQuote : ∀ {q : Char}, isQuote q = true → ')' ≠ q := by
    rintro _ hq rfl
    exact absurd hq (by decide)
  have hfront : ')' ∉ '(' :: (room₁ ++ [q]) := by
    simp only [List.mem_cons, List.mem_append, List.not_mem_nil, or_false, not_or]
    exact ⟨by decide, not_mem_of_allBlank hroom₁ (by decide), hnotQuote hq⟩
  have hback : ')' ∉ q' :: (room₂ ++ ',' :: (room₃ ++ ['\x7b'])) := by
    simp only [List.mem_cons, List.mem_append, List.not_mem_nil, or_false, not_or]
    exact ⟨hnotQuote hq', not_mem_of_allBlank hroom₂ (by decide), by decide,
      not_mem_of_allBlank hroom₃ (by decide), by decide⟩
  -- so the bracket stands in the name of the table
  have hcut : '(' :: (room₁ ++ [q]) ++ (name ++ q' :: (room₂ ++ ',' :: (room₃ ++ ['\x7b']))) =
      before ++ ')' :: after := by
    rw [← h]
    simp
  obtain ⟨inside, rfl, hinside⟩ := exists_of_not_mem_left hcut hfront
  obtain ⟨more, rfl, -⟩ := exists_of_not_mem_right hinside hback
  have hquoted := readsCode_quoted (c := ')') hroom₁ hq
    (fun d hd => hname d (List.mem_append_left _ hd)) next
  rw [← hquoted]
  simp

/-- The header of a declaration does not reach over the end of its call. -/
theorem Closes.exists_header {call rest after lead text : List Char} {header : EntityHeader}
    (h : Closes .start [] call) (hhead : call.head? = some '(') (htext : IsHeader header text)
    (hlead : header.lead = lead) (heq : text ++ rest = lead ++ (call ++ after)) :
    ∃ more, lead ++ call = text ++ more := by
  obtain ⟨inner, _, rfl, -, hcloser, -⟩ := h.exists_of_call hhead
  obtain ⟨opening, builder, room₁, room₂, q, q', room₃, room₄, -, -, -, hroom₂, hq, hq', hroom₃, hroom₄,
    hname, -, rfl⟩ := htext
  rw [hlead, List.append_assoc] at heq
  rcases List.append_eq_append_iff.mp (List.append_cancel_left heq) with
    ⟨more, hmore, -⟩ | ⟨more, hmore, -⟩
  · exact ⟨more, by rw [hmore, hlead, List.append_assoc]⟩
  · -- else the closing bracket would be read in the string that the name starts
    have hsplit : '(' :: (inner ++ [')']) ++ more = '(' :: inner ++ ')' :: more := by simp
    rw [readsCode_columns (hmore.trans hsplit) hroom₂ hq hname hq' hroom₃ hroom₄] at hcloser
    exact Bool.noConfusion hcloser

end Declaration

namespace Catalog

/-- The declaration of an entity, made of a lead, a call and a terminator, is found in the same way
wherever it stands in code at the start of a line. -/
structure PortableEntity (e : Entity) (header : EntityHeader) (d : DeclarationParts) : Prop where
  body_eq : e.bodyText.toList = d.body
  name_eq : e.name.toList = header.name
  physicalName_eq : e.physicalName.toList = header.physicalName
  lead_eq : header.lead = d.lead
  /-- The text starts with the header. -/
  starts : ∃ text more, d.body = text ++ more ∧ IsHeader header text
  /-- The lead starts with the first letter of a word. -/
  head?_lead : d.lead.head? = some 'e'
  neutral_lead : ∀ c ∈ d.lead, isNeutral c = true
  /-- The call goes on to the bracket that closes it. -/
  closes : Closes .start [] d.call
  terminator : IsTerminator d.term
  /-- No alias statement is met where the text is code. -/
  no_alias : ∀ before c after, d.body = before ++ c :: after →
    Lexer.start.readsCode before c after.head? = true →
    ∀ rest, aliasStatement (c :: (after ++ rest)) = none

/-- The declaration of an alias is a statement, if some text comes after it. -/
structure PortableAlias (a : Alias) (st : AliasStatement) : Prop where
  met : ∃ rest, aliasStatement (a.bodyText.toList ++ rest) = some (st, rest)
  name_eq : a.name.toList = st.name
  referenced_eq : a.referencedEntity.toList = st.referenced
  shape_eq : a.shape = st.shape

theorem exists_portableAlias {source origin : String} {c : Catalog} (h : extract source origin = .ok c)
    {a : Alias} (ha : a ∈ c.aliases) : ∃ st, PortableAlias a st := by
  obtain ⟨o, ho, rfl⟩ := (mem_aliases_iff h).mp ha
  obtain ⟨before, rest, -, -, hmet⟩ := (mem_liveAliases_iff.mp ho).1
  refine ⟨o.value, ⟨rest, ?_⟩, ?_, ?_, rfl⟩ <;> simp [aliasOf, hmet]

section

variable {source origin : String} {c : Catalog} {e : Entity} {header : Occurrence EntityHeader}
  {stop : Nat} {d : DeclarationParts}

/-- An alias that starts inside an entity shares a byte with it. -/
theorem not_covered_of_disjoint (h : extract source origin = .ok c)
    (hfree : ∀ a ∈ c.aliases, (Symbol.entity e).span.Disjoint (Symbol.derived a).span)
    (hbody : e.bodyText.toList = d.body) {before after : List Char} {ch : Char}
    (hsplit : d.body = before ++ ch :: after) :
    ¬ Covered (aliasSpans source.toList) (e.offset + byteLength before) := by
  rintro ⟨s, hs, hstart, hstop⟩
  obtain ⟨o, ho, rfl⟩ := List.mem_map.mp hs
  have hdisjoint := hfree _ ((mem_aliases_iff h).mpr ⟨o, ho, rfl⟩)
  have hlen := ch.utf8Size_pos
  simp only [Span.Disjoint, Symbol.span, Symbol.offset, Symbol.bodyText, hbody, hsplit, aliasOf,
    String.toList_ofList, byteLength_append, byteLength_cons] at hdisjoint
  simp only [Occurrence.span] at hstart hstop
  omega

/-- No part of an entity that shares no byte with an alias is blanked out in the working copy. -/
theorem blankSpansFrom_of_disjoint (h : extract source origin = .ok c)
    (hfree : ∀ a ∈ c.aliases, (Symbol.entity e).span.Disjoint (Symbol.derived a).span)
    (hbody : e.bodyText.toList = d.body) {front part back : List Char}
    (hsplit : d.body = front ++ (part ++ back)) :
    blankSpansFrom (aliasSpans source.toList) (e.offset + byteLength front) part = part := by
  refine blankSpansFrom_of_not_covered fun before ch after hpart => ?_
  rw [Nat.add_assoc, ← byteLength_append]
  have hinside : d.body = (front ++ before) ++ ch :: (after ++ back) := by
    rw [hsplit, hpart]
    simp only [List.append_assoc, List.cons_append]
  exact not_covered_of_disjoint h hfree hbody hinside

/-- No alias statement is met in the code of an entity that shares no byte with an alias, when what is
met ends before the entity's text does. -/
theorem not_met_of_disjoint (h : extract source origin = .ok c)
    (hfree : ∀ a ∈ c.aliases, (Symbol.entity e).span.Disjoint (Symbol.derived a).span)
    (hbody : e.bodyText.toList = d.body) (hoff : e.offset = header.offset)
    (hd : Declares source.toList header stop d) {before after text rest : List Char} {ch : Char}
    {st : AliasStatement} (hsplit : d.body = before ++ ch :: after)
    (hcode : Lexer.start.readsCode before ch after.head? = true)
    (hrest : ch :: (after ++ d.after) = text ++ rest) :
    aliasStatement (text ++ rest) ≠ some (st, rest) := by
  intro hmet
  have hlive := hd.within_body hsplit
  rw [hcode, Bool.not_true] at hlive
  have hsource : source.toList = (d.before ++ before) ++ (text ++ rest) := by
    rw [hd.source_eq, hsplit, ← hrest]
    simp only [List.append_assoc, List.cons_append]
  have ho : (⟨byteLength (d.before ++ before), text, st⟩ : Occurrence AliasStatement) ∈
      liveAliases source.toList (inertSpans source.toList) :=
    mem_liveAliases_iff.mpr ⟨⟨_, rest, hsource, rfl, hmet⟩, hlive⟩
  refine not_covered_of_disjoint h hfree hbody hsplit ⟨_, List.mem_map_of_mem ho, ?_⟩
  have hne : byteLength text ≠ 0 := by
    intro hzero
    exact (mem_liveAliases_iff.mp ho).1.text_ne_nil consumes_aliasStatement (byteLength_eq_zero.mp hzero)
  simp only [Occurrence.span, hoff, hd.offset_eq, byteLength_append]
  omega

/-- No alias statement is met in the code of an entity that shares no byte with an alias, whatever comes
after the entity. -/
theorem no_alias_of_disjoint (h : extract source origin = .ok c)
    (hfree : ∀ a ∈ c.aliases, (Symbol.entity e).span.Disjoint (Symbol.derived a).span)
    (hbody : e.bodyText.toList = d.body) (hoff : e.offset = header.offset)
    (hd : Declares source.toList header stop d) (hterm : IsTerminator d.term)
    {before after : List Char} {ch : Char} (hsplit : d.body = before ++ ch :: after)
    (hcode : Lexer.start.readsCode before ch after.head? = true) (rest : List Char) :
    aliasStatement (ch :: (after ++ rest)) = none := by
  refine Option.eq_none_iff_forall_ne_some.mpr fun result hmet => ?_
  obtain ⟨st, rest'⟩ := result
  obtain ⟨⟨tail, htail, hneutral⟩, -⟩ := aliasStatement_eq_some hmet
  obtain ⟨inner, _, hcall, -⟩ := hd.closes.exists_of_call hd.head?_call
  have hparts : (d.lead ++ '(' :: inner) ++ ')' :: d.term = before ++ ch :: after := by
    rw [← hsplit, DeclarationParts.body, hcall]
    simp
  obtain ⟨rfl, hafter⟩ := List.cons.inj htail
  rcases List.append_eq_append_iff.mp hparts with ⟨zs, -, hzs⟩ | ⟨bs, -, hbs⟩
  · -- a closing bracket and a terminator hold no letter
    have hmem : 'e' ∈ ')' :: d.term := by
      rw [hzs]
      simp
    rcases List.mem_cons.mp hmem with heq | hmem
    · exact absurd heq (by decide)
    · exact absurd (hterm.eq_of_mem hmem) (by decide)
  · -- a statement is neutral text, and ends before the bracket that closes the call
    have hcut : 'e' :: tail ++ rest' = bs ++ ')' :: (d.term ++ rest) := by
      rw [List.cons_append, ← hafter, ← List.cons_append, hbs]
      simp only [List.append_assoc, List.cons_append]
    have hbracket : ')' ∉ 'e' :: tail := fun hmem => absurd (hneutral ')' hmem) (by decide)
    obtain ⟨more, rfl, rfl⟩ := exists_of_not_mem_left hcut hbracket
    have hmet' : aliasStatement ('e' :: tail ++ (more ++ ')' :: (d.term ++ d.after))) =
        some (st, more ++ ')' :: (d.term ++ d.after)) := by
      rw [htail, ← List.cons_append] at hmet
      refine aliasStatement_congr hmet ?_
      cases more <;> rfl
    refine not_met_of_disjoint h hfree hbody hoff hd hsplit hcode ?_ hmet'
    rw [← List.cons_append, hbs]
    simp only [List.append_assoc, List.cons_append]

/-- An entity that shares no byte with an alias is portable. -/
theorem exists_portableEntity (h : extract source origin = .ok c) (he : e ∈ c.entities)
    (hfree : ∀ a ∈ c.aliases, (Symbol.entity e).span.Disjoint (Symbol.derived a).span) :
    ∃ header d, PortableEntity e header d := by
  obtain ⟨header, boundary, stop, d, hheader, hd, rfl, hbody⟩ := exists_declares_of_mem h he
  have hself : blankSpansFrom (aliasSpans source.toList) (byteLength d.before) d.body = d.body := by
    have hcopy := blankSpansFrom_of_disjoint h hfree hbody
      (show d.body = [] ++ (d.body ++ []) by simp)
    rwa [byteLength_nil, Nat.add_zero, entityOf, hd.offset_eq] at hcopy
  have hterm : IsTerminator d.term := by
    have hcopy := blankSpansFrom_of_disjoint h hfree hbody
      (show d.body = (d.lead ++ d.call) ++ (d.term ++ []) by rw [DeclarationParts.body]; simp)
    rw [byteLength_append, ← Nat.add_assoc] at hcopy
    rw [← hcopy]
    exact hd.terminator
  -- the header is met where the declaration starts
  obtain ⟨before, rest, hworking, hoff, -, hmet⟩ :=
    exists_of_mem_occurrences consumes_entityHeader hheader
  obtain ⟨text, htext, hisHeader⟩ := exists_of_entityHeader hmet
  have hcopied : workingCopy source.toList =
      blankSpans (d.before ++ (d.body ++ d.after)) (aliasSpans source.toList) := by
    rw [← hd.source_eq]
    rfl
  have hcut : before ++ (text ++ rest) = blankSpansFrom (aliasSpans source.toList) 0 d.before ++
      (d.lead ++ (d.call ++ (d.term ++ blankSpansFrom (aliasSpans source.toList)
        (byteLength d.before + byteLength d.body) d.after))) := by
    rw [← htext, ← hworking, hcopied, blankSpans_append, hself, DeclarationParts.body]
    simp only [List.append_assoc]
  have hstart := (append_inj_of_byteLength hcut
    (by rw [byteLength_blankSpansFrom, ← hoff, hd.offset_eq])).2
  have hlead : header.value.lead = d.lead := by
    obtain ⟨opening, builder, room₁, room₂, q, q', room₃, room₄, -, -, -, -, -, -, -, -, -, -, rfl⟩ :=
      hisHeader
    rw [List.append_assoc] at hstart
    exact (append_inj_of_byteLength hstart hd.byteLength_lead.symm).1
  obtain ⟨more, hmore⟩ := hd.closes.exists_header hd.head?_call hisHeader hlead hstart
  have hstarts : d.body = text ++ (more ++ d.term) := by
    rw [DeclarationParts.body, ← List.append_assoc, hmore, List.append_assoc]
  exact ⟨header.value, d, hbody, String.toList_ofList, String.toList_ofList, hlead,
    ⟨text, _, hstarts, hisHeader⟩, hd.head?_lead, hd.neutral_lead, hd.closes, hterm,
    fun _ _ _ hsplit hcode => no_alias_of_disjoint h hfree hbody rfl hd hterm hsplit hcode⟩

end

end Catalog

end SchemaModules
