import SchemaModules.Proofs.Standalone

/-!
# Proofs: where declarations stand in their source

Every symbol's declaration stands in the source at the symbol's offset, where the lexer is in code, and
is standalone.
-/

namespace SchemaModules

open Text Lexical Declaration

namespace Declaration

theorem byteLength_eq_length {cs : List Char} (h : ∀ c ∈ cs, c.utf8Size = 1) :
    byteLength cs = cs.length := by
  induction cs with
  | nil => rfl
  | cons c cs ih =>
    rw [byteLength_cons, List.length_cons, h c (List.mem_cons_self ..),
      ih fun d hd => h d (List.mem_cons_of_mem _ hd), Nat.add_comm]

/-- Spaces and tabs and a semicolon, or nothing at all. -/
def IsTerminator (cs : List Char) : Prop :=
  cs = [] ∨ ∃ room, cs = room ++ [';'] ∧ ∀ c ∈ room, c = ' ' ∨ c = '\t'

theorem IsTerminator.eq_of_mem {cs : List Char} (h : IsTerminator cs) {c : Char} (hc : c ∈ cs) :
    c = ' ' ∨ c = '\t' ∨ c = ';' := by
  rcases h with rfl | ⟨room, rfl, hroom⟩
  · simp at hc
  · rcases List.mem_append.mp hc with hc | hc
    · exact (hroom c hc).imp_right Or.inl
    · exact Or.inr (Or.inr (List.mem_singleton.mp hc))

theorem isNeutral_of_space {c : Char} (h : c = ' ' ∨ c = '\t') : isNeutral c = true := by
  rcases h with rfl | rfl <;> decide

/-- A terminator is counted where a semicolon comes behind the spaces and tabs that the text starts
with. -/
theorem exists_of_terminatorLength (cs : List Char) : ∃ room tail, cs = room ++ tail ∧
    (∀ c ∈ room, c = ' ' ∨ c = '\t') ∧ cs.dropWhile (fun c => c = ' ' || c = '\t') = tail ∧
    terminatorLength cs = if tail.head? = some ';' then byteLength room + 1 else 0 := by
  have hparts : cs.takeWhile (fun c => c = ' ' || c = '\t') ++
      cs.dropWhile (fun c => c = ' ' || c = '\t') = cs := List.takeWhile_append_dropWhile
  generalize hroom : cs.takeWhile (fun c => c = ' ' || c = '\t') = room at hparts
  generalize cs.dropWhile (fun c => c = ' ' || c = '\t') = tail at hparts
  have hspace : ∀ c ∈ room, c = ' ' ∨ c = '\t' := by
    intro c hc
    rw [← hroom] at hc
    simpa using List.all_eq_true.mp List.all_takeWhile c hc
  have hlen : byteLength room = room.length := by
    refine byteLength_eq_length fun c hc => ?_
    rcases hspace c hc with rfl | rfl <;> rfl
  refine ⟨room, tail, hparts.symm, hspace, rfl, ?_⟩
  unfold terminatorLength
  rw [hroom, hlen]
  dsimp only
  rw [← hparts, List.drop_left]

/-- The bytes that are counted as a terminator are those of one. -/
theorem exists_terminator (cs : List Char) : ∃ term rest, cs = term ++ rest ∧
    byteLength term = terminatorLength cs ∧ IsTerminator term := by
  obtain ⟨room, tail, hparts, hspace, -, hlen⟩ := exists_of_terminatorLength cs
  rw [hlen]
  split
  · rename_i hhead
    obtain ⟨tail, rfl⟩ := List.head?_eq_some_iff.mp hhead
    exact ⟨room ++ [';'], tail, by rw [hparts]; simp, byteLength_append ..,
      Or.inr ⟨room, rfl, hspace⟩⟩
  · exact ⟨[], cs, rfl, rfl, Or.inl rfl⟩

/-- A declaration ends after its call and the terminator behind it. -/
theorem exists_of_declarationEnd {front back : List Char} {stop : Nat}
    (h : declarationEnd (front ++ back) (byteLength front) = .ok stop) :
    ∃ call term rest, back = call ++ (term ++ rest) ∧
      stop = byteLength front + byteLength call + byteLength term ∧ Closes .start [] call ∧
      IsTerminator term := by
  unfold declarationEnd at h
  rw [dropBytes_append] at h
  dsimp only at h
  split at h
  · rename_i stop' hbalance
    obtain ⟨call, rest, rfl, hstop', hcloses⟩ := exists_of_balanceFrom hbalance
    obtain ⟨term, rest, rfl, hlen, hterm⟩ := exists_terminator rest
    have hdrop : dropBytes stop' (front ++ (call ++ (term ++ rest))) = term ++ rest := by
      rw [hstop', ← byteLength_append, ← List.append_assoc, dropBytes_append]
    rw [hdrop, ← hlen] at h
    refine ⟨call, term, rest, rfl, ?_, hcloses, hterm⟩
    rw [← Except.ok.inj h, hstop']
  · simp at h
  · simp at h

/-- Before the end of a line, a terminator is counted as such. -/
theorem terminatorLength_append {term rest : List Char} (hterm : IsTerminator term)
    (hrest : ∀ c ∈ rest.head?, c = '\n') : terminatorLength (term ++ rest) = byteLength term := by
  have hspace : ∀ c : Char, (c = ' ' || c = '\t') = true ↔ c = ' ' ∨ c = '\t' := by simp
  unfold terminatorLength
  rcases hterm with rfl | ⟨room, rfl, hroom⟩
  · cases rest with
    | nil => rfl
    | cons c rest =>
      obtain rfl : c = '\n' := hrest c rfl
      simp
  · have htake : (room ++ [';'] ++ rest).takeWhile (fun c => c = ' ' || c = '\t') = room := by
      rw [List.append_assoc, List.singleton_append]
      exact takeWhile_of_stops (fun c hc => (hspace c).mpr (hroom c hc)) (stops_cons (by decide) rest)
    have hlen : byteLength room = room.length := byteLength_eq_length fun c hc => by
      rcases hroom c hc with rfl | rfl <;> rfl
    have hsemicolon : Char.utf8Size ';' = 1 := rfl
    rw [htake]
    simp [hlen, hsemicolon]

/-- A declaration that ends with its line ends after its call and the terminator behind it. -/
theorem declarationEnd_eq {front call term rest : List Char} (hcloses : Closes .start [] call)
    (hterm : IsTerminator term) (hrest : ∀ c ∈ rest.head?, c = '\n') :
    declarationEnd (front ++ (call ++ (term ++ rest))) (byteLength front) =
      .ok (byteLength front + byteLength call + byteLength term) := by
  have hdrop : dropBytes (byteLength front + byteLength call) (front ++ (call ++ (term ++ rest))) =
      term ++ rest := by
    rw [← byteLength_append, ← List.append_assoc, dropBytes_append]
  unfold declarationEnd
  dsimp only
  rw [dropBytes_append, hcloses.balanceFrom_eq]
  dsimp only
  rw [hdrop, terminatorLength_append hterm hrest]

end Declaration

namespace Catalog

/-- A terminator in the copy is neutral text of the same length in the text. -/
theorem Masked.exists_of_isTerminator {lx : Lexer} {text term rest : List Char}
    (h : Masked lx text (term ++ rest)) (hterm : IsTerminator term) :
    ∃ term' rest', text = term' ++ rest' ∧ byteLength term' = byteLength term ∧
      ∀ c ∈ term', isNeutral c = true := by
  rcases hterm with rfl | ⟨room, rfl, hroom⟩
  · exact ⟨[], text, rfl, rfl, by simp⟩
  · rw [List.append_assoc, List.singleton_append] at h
    obtain ⟨room', rest', rfl, hlen, hneutral, -⟩ := h.exists_kept (by decide) (by decide)
    refine ⟨room' ++ [';'], rest', by simp, by simp [hlen], fun c hc => ?_⟩
    rcases List.mem_append.mp hc with hc | hc
    · exact hneutral (fun d hd => isNeutral_of_space (hroom d hd)) c hc
    · rw [List.mem_singleton.mp hc]
      decide

/-- The text stands at byte `offset` of the source, where the lexer is in code, and is standalone. -/
def LiveAt (source : List Char) (offset : Nat) (text : List Char) : Prop :=
  ∃ before after, source = before ++ (text ++ after) ∧ offset = byteLength before ∧ text ≠ [] ∧
    (Lexer.start.advance before text.head?).inCode = true ∧ Standalone text

/-- The lead of a live header stands in the source where the header stands, and the bracket that opens
the call comes right after it, in the source as in the copy. -/
theorem exists_of_header {source : List Char} {header : Occurrence EntityHeader}
    (hheader : header ∈ occurrences entityHeader (workingCopy source))
    (hlive : within (inertSpans source) header.offset = false) :
    ∃ before lead back front after, source = before ++ ('e' :: lead ++ '(' :: back) ∧
      header.offset = byteLength before ∧ byteLength ('e' :: lead) = byteLength header.value.lead ∧
      (∀ c ∈ 'e' :: lead, isNeutral c = true) ∧
      (Lexer.start.advance before (some 'e')).inCode = true ∧
      workingCopy source = front ++ '(' :: after ∧
      byteLength front = header.offset + byteLength header.value.lead ∧
      Masked (Lexer.start.advance before (some 'e')) ('(' :: back) ('(' :: after) := by
  obtain ⟨before, rest, hworking, hoff, -, hmet⟩ :=
    exists_of_mem_occurrences consumes_entityHeader hheader
  obtain ⟨⟨tail, after, hlead, htail, hcs, -⟩, -⟩ := entityHeader_eq_some hmet
  rw [hlead, List.cons_append] at hcs
  have hmasked := masked_workingCopy source
  rw [hworking, hcs] at hmasked
  obtain ⟨before', back, hsource, hbefore, -, hmasked⟩ :=
    hmasked.exists_kept (by decide) (by decide)
  have hcode : (Lexer.start.advance before' (some 'e')).inCode = true := by
    rw [hoff, ← hbefore, hsource] at hlive
    exact inCode_of_within_eq_false hlive
  have hneutral : ∀ c ∈ 'e' :: tail, isNeutral c = true :=
    List.forall_mem_cons.mpr ⟨by decide, htail⟩
  rw [← List.cons_append] at hmasked
  obtain ⟨lead, back', hback, hleadLen, hleadNeutral, hmasked⟩ :=
    hmasked.exists_kept (by decide) (by decide)
  rw [Lexer.advance_neutral hcode (hleadNeutral hneutral)] at hmasked
  -- the lead is not empty, since the bracket is no `e`
  cases lead with
  | nil => exact absurd (List.cons.inj hback).1 (by decide)
  | cons d lead =>
    obtain rfl : 'e' = d := (List.cons.inj hback).1
    refine ⟨before', lead, back', before ++ 'e' :: tail, after, by rw [hsource, hback],
      hoff.trans hbefore.symm, by rw [hleadLen, hlead], hleadNeutral hneutral, hcode, ?_, ?_, hmasked⟩
    · rw [hworking, hcs]
      simp
    · rw [byteLength_append, hoff, hlead]

/-- The declaration of an entity, cut into its parts, and the text around it. -/
structure DeclarationParts where
  /-- What stands before the declaration. -/
  before : List Char
  /-- The characters before the bracket that opens the builder call. -/
  lead : List Char
  /-- The builder call. -/
  call : List Char
  /-- What the declaration has after the call. -/
  term : List Char
  /-- What stands after the declaration. -/
  after : List Char

/-- The declaration as written. -/
def DeclarationParts.body (d : DeclarationParts) : List Char := d.lead ++ (d.call ++ d.term)

/-- The parts are those of the declaration that a header starts, which ends at byte `stop`. -/
structure Declares (source : List Char) (header : Occurrence EntityHeader) (stop : Nat)
    (d : DeclarationParts) : Prop where
  /-- They make up the source. -/
  source_eq : source = d.before ++ (d.body ++ d.after)
  /-- The declaration starts where the header does. -/
  offset_eq : header.offset = byteLength d.before
  /-- The declaration ends where it is said to end. -/
  stop_eq : stop = header.offset + byteLength d.body
  /-- The bracket that opens the call stands where it stands in the working copy. -/
  byteLength_lead : byteLength d.lead = byteLength header.value.lead
  /-- The lead starts with the first letter of a word. -/
  head?_lead : d.lead.head? = some 'e'
  /-- The lead is neutral text. -/
  neutral_lead : ∀ c ∈ d.lead, isNeutral c = true
  /-- The lexer is in code where the declaration starts. -/
  inCode : (Lexer.start.advance d.before (some 'e')).inCode = true
  /-- The call starts with its bracket. -/
  head?_call : d.call.head? = some '('
  /-- The call goes on to the bracket that closes it. -/
  closes : Closes .start [] d.call
  /-- What the declaration has after the call is a terminator in the working copy. -/
  terminator : IsTerminator
    (blankSpansFrom (aliasSpans source) (header.offset + byteLength d.lead + byteLength d.call) d.term)
  /-- What the declaration has after the call is neutral text. -/
  neutral_term : ∀ c ∈ d.term, isNeutral c = true

/-- A live header whose call is closed starts a declaration. -/
theorem exists_declares {source : List Char} {header : Occurrence EntityHeader} {stop : Nat}
    (hheader : header ∈ occurrences entityHeader (workingCopy source))
    (hlive : within (inertSpans source) header.offset = false)
    (hstop : declarationEnd (workingCopy source)
      (header.offset + byteLength header.value.lead) = .ok stop) :
    ∃ d, Declares source header stop d := by
  obtain ⟨before, lead, back, front, after, hsource, hoff, hleadLen, hneutral, hcode, hworking,
    hfront, hmasked⟩ := exists_of_header hheader hlive
  -- the end was found in the copy; the source is cut at the same offsets
  rw [hworking, ← hfront] at hstop
  obtain ⟨call, term, rest, hafter, hstop, hcloses, hterm⟩ := exists_of_declarationEnd hstop
  obtain ⟨call', back', hcall, hcallLen, hcloses', hmasked⟩ :=
    hmasked.exists_closes hafter hcloses (.start hcode)
  obtain ⟨term', last, rfl, htermLen, htermNeutral⟩ := hmasked.exists_of_isTerminator hterm
  have hparts : source = (before ++ 'e' :: lead ++ call') ++ (term' ++ last) := by
    rw [hsource, hcall]
    simp only [List.append_assoc]
  have hlen : byteLength (before ++ 'e' :: lead ++ call') = byteLength (front ++ call) := by
    rw [byteLength_append, byteLength_append, byteLength_append, hfront, hoff, hleadLen, hcallLen]
  have hcut : blankSpans ((before ++ 'e' :: lead ++ call') ++ (term' ++ last)) (aliasSpans source) =
      (front ++ call) ++ (term ++ rest) := by
    rw [← hparts, List.append_assoc front, ← hafter]
    exact hworking
  have hcopy := eq_blankSpansFrom_of_split hcut hlen.symm htermLen.symm
  refine ⟨⟨before, 'e' :: lead, call', term', last⟩, ?_, hoff, ?_, hleadLen, rfl, hneutral, hcode, ?_,
    hcloses', ?_, htermNeutral⟩
  · rw [hparts, DeclarationParts.body]
    simp only [List.append_assoc]
  · rw [DeclarationParts.body, byteLength_append, byteLength_append, hstop, hfront, hleadLen, hcallLen,
      htermLen]
    omega
  · rw [← hcloses'.head?_append (term' ++ last), ← hcall]
    rfl
  · rw [hoff, ← byteLength_append, ← byteLength_append, ← hcopy]
    exact hterm

namespace Declares

variable {source : List Char} {header : Occurrence EntityHeader} {stop : Nat} {d : DeclarationParts}

theorem source_eq_call (h : Declares source header stop d) :
    source = (d.before ++ d.lead) ++ (d.call ++ (d.term ++ d.after)) := by
  rw [h.source_eq, DeclarationParts.body]
  simp only [List.append_assoc]

theorem source_eq_term (h : Declares source header stop d) :
    source = (d.before ++ (d.lead ++ d.call)) ++ (d.term ++ d.after) := by
  rw [h.source_eq, DeclarationParts.body]
  simp only [List.append_assoc]

/-- The declaration that the parts make up is the slice of the source up to its end. -/
theorem slice_eq (h : Declares source header stop d) : slice source header.offset stop = d.body := by
  have hstop := h.stop_eq
  rw [h.offset_eq] at hstop ⊢
  rw [h.source_eq]
  exact slice_append rfl hstop

theorem head?_body (h : Declares source header stop d) : d.body.head? = some 'e' := by
  rw [DeclarationParts.body, List.head?_append, h.head?_lead]
  rfl

theorem standalone (h : Declares source header stop d) : Standalone d.body :=
  (standalone_neutral h.neutral_lead).append
    (h.closes.standalone.append (standalone_neutral h.neutral_term))

/-- The lexer is still in code where the call starts. -/
theorem inCode_call (h : Declares source header stop d) (next : Option Char) :
    (Lexer.start.advance (d.before ++ d.lead) next).inCode = true := by
  rw [Lexer.advance_append, h.head?_lead, Option.some_or, Lexer.advance_neutral h.inCode h.neutral_lead]
  exact h.inCode

/-- A character of the declaration is inert as if the declaration stood alone. -/
theorem within_body (h : Declares source header stop d) {before after : List Char} {c : Char}
    (hsplit : d.body = before ++ c :: after) :
    within (inertSpans source) (byteLength (d.before ++ before)) =
      !Lexer.start.readsCode before c after.head? := by
  rw [h.source_eq, byteLength_append]
  exact within_inertSpans_of_standalone h.standalone (by rw [h.head?_body]; exact h.inCode) hsplit
    (Nat.le_refl _) (Nat.lt_add_of_pos_right c.utf8Size_pos)

end Declares

/-- An entity is the declaration of a live header, and its text is what the parts make up. -/
theorem exists_declares_of_mem {source origin : String} {c : Catalog}
    (h : extract source origin = .ok c) {e : Entity} (he : e ∈ c.entities) :
    ∃ header boundary stop d, header ∈ occurrences entityHeader (workingCopy source.toList) ∧
      Declares source.toList header stop d ∧ e = entityOf source.toList header boundary stop ∧
      e.bodyText.toList = d.body := by
  obtain ⟨found, hfound, hentities⟩ := exists_collects h
  obtain ⟨f, hf, boundary, rfl⟩ := exists_left_of_forall₂ hentities he
  obtain ⟨hheader, hlive, hends⟩ := hfound.of_mem hf
  obtain ⟨d, hd⟩ := exists_declares hheader hlive hends
  refine ⟨f.1, boundary, f.2, d, hheader, hd, rfl, ?_⟩
  rw [← hd.slice_eq]
  exact String.toList_ofList

/-- The declaration that a live header starts stands where the header stands. -/
theorem liveAt_of_header {source : List Char} {header : Occurrence EntityHeader} {stop : Nat}
    (hheader : header ∈ occurrences entityHeader (workingCopy source))
    (hlive : within (inertSpans source) header.offset = false)
    (hstop : declarationEnd (workingCopy source)
      (header.offset + byteLength header.value.lead) = .ok stop) :
    LiveAt source header.offset (slice source header.offset stop) := by
  obtain ⟨d, hd⟩ := exists_declares hheader hlive hstop
  rw [hd.slice_eq]
  refine ⟨d.before, d.after, hd.source_eq, hd.offset_eq, ?_, by rw [hd.head?_body]; exact hd.inCode,
    hd.standalone⟩
  intro hnil
  have hhead := hd.head?_body
  simp [hnil] at hhead

/-- The declaration of every symbol stands at the symbol's offset. -/
theorem liveAt_of_extract {source origin : String} {c : Catalog}
    (h : extract source origin = .ok c) {s : Symbol} (hs : s ∈ c.symbols) :
    LiveAt source.toList s.offset s.bodyText.toList := by
  obtain ⟨entities, hcollect, -, -, rfl⟩ := extract_eq_ok h
  cases s with
  | entity e =>
    obtain ⟨header, hheader, boundary, stop, hlive, hstop, rfl⟩ :=
      exists_of_mem_collectEntities hcollect (entity_mem_symbols.mp hs)
    have hlive' := liveAt_of_header hheader hlive hstop
    simpa [Symbol.bodyText, Symbol.offset, entityOf] using hlive'
  | derived a =>
    obtain ⟨a', ha', rfl⟩ := List.mem_map.mp (derived_mem_symbols.mp hs)
    obtain ⟨o, ho, rfl⟩ := List.mem_map.mp ha'
    obtain ⟨before, tail, rest, hsource, htext, hoff, hneutral, hcode, -⟩ :=
      exists_of_mem_liveAliases ho
    have hlive : LiveAt source.toList o.offset o.text :=
      ⟨before, rest, by rw [htext, hsource], hoff, by simp [htext], by rw [htext]; exact hcode,
        htext ▸ standalone_neutral hneutral⟩
    simpa [Symbol.bodyText, Symbol.offset, aliasOf] using hlive

theorem leadingComment_of_extract {source origin : String} {c : Catalog}
    (h : extract source origin = .ok c) {e : Entity} (he : e ∈ c.entities) :
    ∃ boundary, e.leadingComment =
      (banner? source.toList boundary e.offset).map String.ofList := by
  obtain ⟨entities, hcollect, -, -, rfl⟩ := extract_eq_ok h
  obtain ⟨header, -, boundary, stop, -, -, rfl⟩ := exists_of_mem_collectEntities hcollect he
  exact ⟨boundary, rfl⟩

end Catalog

end SchemaModules
