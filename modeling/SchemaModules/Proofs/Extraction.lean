import SchemaModules.Proofs.Collection
import SchemaModules.Proofs.Symbols
import SchemaModules.Proofs.WorkingCopy

/-!
# Proofs: what extraction finds

Each lemma reads the success of one stage as what it says about the source: where the live aliases
stand, which headers become entities, and that names are declared once. Together they make the catalog
of a source well formed.
-/

namespace SchemaModules

/-- A run that is computed has a result, with what was computed of it. -/
theorem exists_eq_ok_of_map_toOption {ε α β : Type} {x : Except ε α} {f : α → β} {b : β}
    (h : x.toOption.map f = some b) : ∃ a, x = .ok a ∧ f a = b := by
  cases x with
  | error e => simp [Except.toOption] at h
  | ok a => exact ⟨a, rfl, Option.some.inj h⟩

namespace Catalog

open Text Lexical Declaration

/-! ## Aliases -/

/-- A live alias statement is neutral text that starts where the lexer stands in code. -/
theorem exists_of_mem_liveAliases {source : List Char} {o : Occurrence AliasStatement}
    (ho : o ∈ liveAliases source (inertSpans source)) :
    ∃ before tail rest, source = before ++ ('e' :: tail ++ rest) ∧ o.text = 'e' :: tail ∧
      o.offset = byteLength before ∧ (∀ c ∈ 'e' :: tail, isNeutral c = true) ∧
      (Lexer.start.advance before (some 'e')).inCode = true ∧ IsName o.value.name := by
  obtain ⟨ho, hlive⟩ := List.mem_filter.mp ho
  obtain ⟨before, rest, hsource, hoff, -, hmet⟩ :=
    exists_of_mem_occurrences consumes_aliasStatement ho
  obtain ⟨⟨tail, htail, hneutral⟩, hname, -⟩ := aliasStatement_eq_some hmet
  rw [← List.cons_append] at htail
  have htext : o.text = 'e' :: tail := List.append_cancel_right htail
  refine ⟨before, tail, rest, by rw [hsource, htext], htext, hoff, hneutral, ?_, hname⟩
  rw [hsource, htext, hoff] at hlive
  exact inCode_of_within_eq_false (by simpa using hlive)

/-- The spans of the live aliases of a source. -/
def aliasSpans (source : List Char) : List Span :=
  (liveAliases source (inertSpans source)).map Occurrence.span

/-- The working copy in which the live aliases of a source are blanked out. -/
def workingCopy (source : List Char) : List Char := blankSpans source (aliasSpans source)

/-- Byte `pos` is covered by one of the spans. -/
def Covered (spans : List Span) (pos : Nat) : Prop := ∃ s ∈ spans, s.start ≤ pos ∧ pos < s.stop

section

variable {spans : List Span} {pos : Nat}

theorem any_iff_covered :
    (spans.any fun s => s.start ≤ pos && pos < s.stop) = true ↔ Covered spans pos := by
  simp [Covered]

theorem blankSpansFrom_cons_of_covered (h : Covered spans pos) (c : Char) (cs : List Char) :
    blankSpansFrom spans pos (c :: cs) = blanked c ++ blankSpansFrom spans (pos + c.utf8Size) cs := by
  rw [blankSpansFrom, if_pos (any_iff_covered.mpr h)]

theorem blankSpansFrom_cons_of_not_covered (h : ¬ Covered spans pos) (c : Char) (cs : List Char) :
    blankSpansFrom spans pos (c :: cs) = c :: blankSpansFrom spans (pos + c.utf8Size) cs := by
  rw [blankSpansFrom, if_neg fun hany => h (any_iff_covered.mp hany)]
  rfl

/-- What no span covers is kept as it is. -/
theorem blankSpansFrom_of_not_covered {text : List Char}
    (h : ∀ before c after, text = before ++ c :: after → ¬ Covered spans (pos + byteLength before)) :
    blankSpansFrom spans pos text = text := by
  induction text generalizing pos with
  | nil => rfl
  | cons c text ih =>
    have hkept : ¬ Covered spans pos := h [] c text rfl
    rw [blankSpansFrom_cons_of_not_covered hkept, ih fun before d after htext => ?_]
    have hlater := h (c :: before) d after (by rw [htext]; rfl)
    rwa [byteLength_cons, ← Nat.add_assoc] at hlater

/-- What the spans cover is blanked out. -/
theorem blankSpansFrom_of_covered {text : List Char}
    (h : ∀ before c after, text = before ++ c :: after → Covered spans (pos + byteLength before)) :
    blankSpansFrom spans pos text = text.flatMap blanked := by
  induction text generalizing pos with
  | nil => rfl
  | cons c text ih =>
    have hcovered : Covered spans pos := h [] c text rfl
    rw [blankSpansFrom_cons_of_covered hcovered, List.flatMap_cons,
      ih fun before d after htext => ?_]
    have hlater := h (c :: before) d after (by rw [htext]; rfl)
    rwa [byteLength_cons, ← Nat.add_assoc] at hlater

end

/-- What an alias covers is read in code, and is neutral. -/
theorem neutral_of_covered {source before after : List Char} {c : Char}
    (hsource : source = before ++ c :: after) (h : Covered (aliasSpans source) (byteLength before)) :
    (Lexer.start.advance before (some c)).inCode = true ∧ isNeutral c = true := by
  obtain ⟨s, hs, hstart, hstop⟩ := h
  obtain ⟨o, ho, rfl⟩ := List.mem_map.mp hs
  obtain ⟨front, tail, rest, hfront, htext, hoff, hneutral, hcode, -⟩ := exists_of_mem_liveAliases ho
  simp only [Occurrence.span, htext, hoff] at hstart hstop
  -- `before` ends in the middle of the statement
  obtain ⟨xs, rfl, hxs⟩ := exists_between_of_byteLength_le (hfront.symm.trans hsource) hstart
  rw [byteLength_append] at hstop
  obtain ⟨ys, hys, hrest⟩ := exists_between_of_byteLength_le hxs.symm (by omega)
  have hne : ys ≠ [] := by
    rintro rfl
    rw [hys, List.append_nil] at hstop
    exact Nat.lt_irrefl _ hstop
  obtain ⟨d, ys, rfl⟩ := List.exists_cons_of_ne_nil hne
  obtain rfl : c = d := (List.cons.inj hrest).1
  have hhead : xs.head?.or (some c) = some 'e' := by
    rw [← List.head?_cons (a := c) (l := ys), ← List.head?_append, ← hys, List.head?_cons]
  rw [Lexer.advance_append, hhead, Lexer.advance_neutral hcode]
  · exact ⟨hcode, hneutral c (by rw [hys]; simp)⟩
  · exact fun x hx => hneutral x (by rw [hys]; exact List.mem_append_left _ hx)

theorem masked_workingCopy (source : List Char) : Masked .start source (workingCopy source) := by
  refine masked_blankSpansFrom fun before c after hsource hcovered => ?_
  simp only [Nat.zero_add] at hcovered
  exact neutral_of_covered hsource hcovered

/-- Where a live alias starts, the working copy has a space. -/
theorem workingCopy_of_mem_liveAliases {source : List Char} {o : Occurrence AliasStatement}
    (ho : o ∈ liveAliases source (inertSpans source)) :
    ∃ front back, workingCopy source = front ++ ' ' :: back ∧ byteLength front = o.offset := by
  obtain ⟨before, tail, rest, hsource, htext, hoff, -⟩ := exists_of_mem_liveAliases ho
  have hcovered : Covered (aliasSpans source) (0 + byteLength before) := by
    have hpos := Char.utf8Size_pos 'e'
    refine ⟨o.span, List.mem_map_of_mem ho, ?_⟩
    simp only [Occurrence.span, htext, hoff, byteLength_cons]
    omega
  have hcopy := blankSpansFrom_append (aliasSpans source) 0 before ('e' :: tail ++ rest)
  rw [← hsource, List.cons_append, blankSpansFrom_cons_of_covered hcovered] at hcopy
  exact ⟨_, _, hcopy, (byteLength_blankSpansFrom ..).trans hoff.symm⟩

/-! ## Names -/

/-- A name stands twice, or among those seen before, exactly when one is found that does. -/
theorem firstRepeated?_eq_none_iff {seen names : List String} :
    firstRepeated? seen names = none ↔ names.Nodup ∧ ∀ n ∈ names, n ∉ seen := by
  induction names generalizing seen with
  | nil => simp [firstRepeated?]
  | cons name names ih =>
    rw [firstRepeated?]
    split
    · rename_i hmem
      simp only [reduceCtorEq, false_iff, not_and]
      intro _ hfresh
      exact hfresh name (List.mem_cons_self ..) (by simpa using hmem)
    · rename_i hmem
      have hfresh : name ∉ seen := by simpa using hmem
      rw [ih, List.nodup_cons]
      constructor
      · rintro ⟨hnodup, hnames⟩
        refine ⟨⟨fun hname => hnames name hname (List.mem_cons_self ..), hnodup⟩, fun n hn => ?_⟩
        rcases List.mem_cons.mp hn with rfl | hn
        · exact hfresh
        · exact fun hseen => hnames n hn (List.mem_cons_of_mem _ hseen)
      · rintro ⟨⟨hname, hnodup⟩, hnames⟩
        refine ⟨hnodup, fun n hn hseen => ?_⟩
        rcases List.mem_cons.mp hseen with rfl | hseen
        · exact hname hn
        · exact hnames n (List.mem_cons_of_mem _ hn) hseen

/-! ## The catalog -/

/-- What the success of extraction means. -/
theorem extract_eq_ok {source origin : String} {c : Catalog} (h : extract source origin = .ok c) :
    ∃ entities,
      collectEntities source.toList (workingCopy source.toList) (inertSpans source.toList)
        (aliasSpans source.toList) 0 (occurrences entityHeader (workingCopy source.toList)) =
          .ok entities ∧
      entities ≠ [] ∧
      (entities.map Entity.name ++
        ((liveAliases source.toList (inertSpans source.toList)).map aliasOf).map
          Alias.name).Nodup ∧
      c = ofLists entities ((liveAliases source.toList (inertSpans source.toList)).map aliasOf) := by
  unfold extract at h
  dsimp only at h
  split at h
  · simp at h
  · rename_i entities hcollect
    split at h
    · simp at h
    · rename_i hne
      split at h
      · simp at h
      · rename_i hfresh
        refine ⟨entities, hcollect, by simpa using hne, ?_, (Except.ok.inj h).symm⟩
        exact (firstRepeated?_eq_none_iff.mp hfresh).1

/-- Extraction succeeds when entities are collected and no name is declared twice. -/
theorem extract_eq_of_collectEntities {source : String} {entities : List Entity}
    (hcollect : collectEntities source.toList (workingCopy source.toList) (inertSpans source.toList)
      (aliasSpans source.toList) 0 (occurrences entityHeader (workingCopy source.toList)) = .ok entities)
    (hne : entities ≠ [])
    (hnames : (entities.map Entity.name ++
      ((liveAliases source.toList (inertSpans source.toList)).map aliasOf).map Alias.name).Nodup)
    (origin : String) : extract source origin =
      .ok (ofLists entities ((liveAliases source.toList (inertSpans source.toList)).map aliasOf)) := by
  have hfresh := firstRepeated?_eq_none_iff.mpr ⟨hnames, fun _ _ => List.not_mem_nil⟩
  unfold workingCopy aliasSpans at hcollect
  unfold extract
  dsimp only
  rw [hcollect]
  dsimp only
  rw [if_neg (by simpa using hne), hfresh]

/-- The entities are what the headers of the working copy declare. -/
theorem exists_collects {source origin : String} {c : Catalog} (h : extract source origin = .ok c) :
    ∃ found, Collects (workingCopy source.toList) (inertSpans source.toList) 0
        (occurrences entityHeader (workingCopy source.toList)) found ∧
      List.Forall₂ (DeclaredBy source.toList) found c.entities := by
  obtain ⟨entities, hcollect, -, -, rfl⟩ := extract_eq_ok h
  exact collects_of_collectEntities hcollect

/-- The aliases are what the live alias statements declare. -/
theorem mem_aliases_iff {source origin : String} {c : Catalog} (h : extract source origin = .ok c)
    {a : Alias} : a ∈ c.aliases ↔
      ∃ o ∈ liveAliases source.toList (inertSpans source.toList),
        { aliasOf o with resolved := c.entities.any fun e => e.name = (aliasOf o).referencedEntity } =
          a := by
  obtain ⟨entities, -, -, -, rfl⟩ := extract_eq_ok h
  simp [ofLists]

/-- No entity starts where a live alias starts: the working copy has a space there. -/
theorem offset_ne_of_mem_liveAliases {source : List Char} {header : Occurrence EntityHeader}
    {o : Occurrence AliasStatement}
    (hheader : header ∈ occurrences entityHeader (workingCopy source))
    (ho : o ∈ liveAliases source (inertSpans source)) : header.offset ≠ o.offset := by
  intro heq
  obtain ⟨before, rest, hworking, hoff, -, hmet⟩ :=
    exists_of_mem_occurrences consumes_entityHeader hheader
  obtain ⟨front, back, hfront, hlen⟩ := workingCopy_of_mem_liveAliases ho
  have hback := (append_inj_of_byteLength (hworking.symm.trans hfront) (by omega)).2
  obtain ⟨⟨tail, after, hlead, -, hcs, -⟩, -⟩ := entityHeader_eq_some hmet
  rw [hcs, hlead] at hback
  simp at hback

/-- The entities that are collected and the live aliases start at bytes of their own. -/
theorem nodup_offsets_of_collectEntities {source : List Char} {entities : List Entity}
    (h : collectEntities source (workingCopy source) (inertSpans source) (aliasSpans source) 0
      (occurrences entityHeader (workingCopy source)) = .ok entities) :
    (entities.map Entity.offset ++
      ((liveAliases source (inertSpans source)).map aliasOf).map Alias.offset).Nodup := by
  refine List.nodup_append.mpr ⟨?_, ?_, ?_⟩
  · have hheaders := pairwise_offset_occurrences consumes_entityHeader (workingCopy source)
    have hnodup : ((occurrences entityHeader (workingCopy source)).map Occurrence.offset).Nodup :=
      List.pairwise_map.mpr (hheaders.imp fun hab => Nat.ne_of_lt hab)
    exact hnodup.sublist (map_offset_collectEntities_sublist h)
  · have hstatements := pairwise_offset_occurrences consumes_aliasStatement source
    rw [List.map_map]
    exact List.pairwise_map.mpr ((hstatements.filter _).imp fun hab => Nat.ne_of_lt hab)
  · intro p hp q hq
    obtain ⟨e, he, rfl⟩ := List.mem_map.mp hp
    obtain ⟨a, ha, rfl⟩ := List.mem_map.mp hq
    obtain ⟨header, hheader, boundary, stop, -, -, rfl⟩ := exists_of_mem_collectEntities h he
    obtain ⟨o, ho, rfl⟩ := List.mem_map.mp ha
    exact offset_ne_of_mem_liveAliases hheader ho

theorem wellFormed_of_extract {source origin : String} {c : Catalog}
    (h : extract source origin = .ok c) : c.WellFormed := by
  obtain ⟨entities, hcollect, -, hnames, rfl⟩ := extract_eq_ok h
  exact wellFormed_ofLists hnames (nodup_offsets_of_collectEntities hcollect)

/-- Every symbol of a source has a name of word characters. -/
theorem isName_of_extract {source origin : String} {c : Catalog} (h : extract source origin = .ok c)
    {s : Symbol} (hs : s ∈ c.symbols) : IsName s.name.toList := by
  obtain ⟨entities, hcollect, -, -, rfl⟩ := extract_eq_ok h
  cases s with
  | entity e =>
    obtain ⟨header, hheader, boundary, stop, -, -, rfl⟩ :=
      exists_of_mem_collectEntities hcollect (entity_mem_symbols.mp hs)
    obtain ⟨_, _, -, -, -, hmet⟩ := exists_of_mem_occurrences consumes_entityHeader hheader
    simpa [Symbol.name, entityOf] using (entityHeader_eq_some hmet).2
  | derived a =>
    obtain ⟨a', ha', rfl⟩ := List.mem_map.mp (derived_mem_symbols.mp hs)
    obtain ⟨o, ho, rfl⟩ := List.mem_map.mp ha'
    obtain ⟨_, _, _, -, -, -, -, -, hname⟩ := exists_of_mem_liveAliases ho
    simpa [Symbol.name, aliasOf] using hname

end Catalog

end SchemaModules
