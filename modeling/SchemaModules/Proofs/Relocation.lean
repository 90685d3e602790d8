import SchemaModules.Proofs.Layout

/-!
# Proofs: what is found in a text laid out from declarations

In a text that is laid out from portable declarations, the search finds these declarations again, each
where it was put, and nothing else. An alias statement may take the blanks up to the next part in
addition, but it does not reach into a declaration.
-/

namespace SchemaModules

open Text Lexical Declaration Catalog

namespace Part

/-- Of two places in a list, one is the other or comes before it. -/
theorem append_cons_trichotomy {α : Type} {xs ys xs' ys' : List α} {x y : α}
    (h : xs ++ x :: ys = xs' ++ y :: ys') : (xs = xs' ∧ x = y ∧ ys = ys') ∨
      (∃ mid, xs' = xs ++ x :: mid ∧ ys = mid ++ y :: ys') ∨
      ∃ mid, xs = xs' ++ y :: mid ∧ ys' = mid ++ x :: ys := by
  rcases List.append_eq_append_iff.mp h with ⟨mid, hxs, hrest⟩ | ⟨mid, hxs, hrest⟩
  · cases mid with
    | nil => exact Or.inl ⟨by rw [hxs, List.append_nil], List.cons.inj hrest⟩
    | cons z mid =>
      obtain ⟨rfl, hys⟩ := List.cons.inj hrest
      exact Or.inr (Or.inl ⟨mid, hxs, hys⟩)
  · cases mid with
    | nil =>
      obtain ⟨hy, hys⟩ := List.cons.inj hrest
      exact Or.inl ⟨by rw [hxs, List.append_nil], hy.symm, hys.symm⟩
    | cons z mid =>
      obtain ⟨rfl, hys⟩ := List.cons.inj hrest
      exact Or.inr (Or.inr ⟨mid, hxs, hys⟩)

variable {parts front back : List Part}

/-! ## Aliases -/

/-- The statement `o` is the alias `a`, put between `front` and `back`, and blanks after it. -/
structure Rereads (front : List Part) (a : Alias) (back : List Part) (o : Occurrence AliasStatement) :
    Prop where
  offset_eq : o.offset = byteLength (front.flatMap text)
  portable : PortableAlias a o.value
  /-- It takes the alias's text, and only blanks of what comes after it. -/
  text_eq : ∃ room more, back.flatMap text = room ++ more ∧ allBlank room = true ∧
    o.text = a.bodyText.toList ++ room ∧ aliasStatement (o.text ++ more) = some (o.value, more)

theorem Rereads.metAt {a : Alias} {o : Occurrence AliasStatement} (h : Rereads front a back o)
    (hparts : parts = front ++ declared (.derived a) :: back) :
    MetAt aliasStatement (parts.flatMap text) o := by
  obtain ⟨room, more, hback, -, htext, hmet⟩ := h.text_eq
  refine ⟨_, more, ?_, h.offset_eq, hmet⟩
  rw [flatMap_text_eq hparts, hback, htext, List.append_assoc]
  rfl

/-- Every alias is found where it was put. -/
theorem Laid.exists_rereads (h : Laid parts) {a : Alias}
    (hparts : parts = front ++ declared (.derived a) :: back) :
    ∃ o ∈ liveAliases (parts.flatMap text) (inertSpans (parts.flatMap text)), Rereads front a back o := by
  obtain ⟨st, hst⟩ := h.portable_of_eq hparts
  obtain ⟨rest, hmet⟩ := hst.met
  have hstop : (blanks (back.flatMap text)).head? ≠ some ';' := fun hhead =>
    absurd (h.eq_of_head?_blanks hparts hhead (by decide)) (by decide)
  obtain ⟨room, more, hback, hblank, hmet'⟩ := aliasStatement_extend hmet hstop
  rw [← List.append_assoc] at hmet'
  have ho : Rereads front a back ⟨_, a.bodyText.toList ++ room, st⟩ :=
    ⟨rfl, hst, room, more, hback, hblank, rfl, hmet'⟩
  exact ⟨_, mem_liveAliases_iff.mpr ⟨ho.metAt hparts, h.within_start hparts⟩, ho⟩

/-- No alias is found that was not put there. -/
theorem Laid.exists_of_mem_liveAliases (h : Laid parts) {o : Occurrence AliasStatement}
    (ho : o ∈ liveAliases (parts.flatMap text) (inertSpans (parts.flatMap text))) :
    ∃ front a back, parts = front ++ declared (.derived a) :: back ∧ Rereads front a back o := by
  obtain ⟨hmet, hlive⟩ := mem_liveAliases_iff.mp ho
  obtain ⟨before, rest, hsource, hoff, hstatement⟩ := hmet
  obtain ⟨⟨tail, htail, -⟩, -⟩ := aliasStatement_eq_some hstatement
  rw [htail] at hsource hstatement
  rw [hoff] at hlive
  obtain ⟨front, s, back, inside, after, hparts, hs, rfl, hafter, hcode⟩ :=
    exists_declared_of_live h.settled hsource (by decide) hlive
  rw [hafter] at hstatement
  cases s with
  | entity e =>
    obtain ⟨header, d, hd⟩ := h.portable_of_eq hparts
    have hnone := hd.no_alias inside 'e' after (hd.body_eq ▸ hs) hcode (back.flatMap text)
    rw [hnone] at hstatement
    simp at hstatement
  | derived a =>
    obtain ⟨o', ho', hrereads⟩ := h.exists_rereads hparts
    have heq : inside = [] := by
      by_contra hne
      obtain ⟨room, more, hback, -, htext, hmet'⟩ := hrereads.text_eq
      have hinside : o'.text ++ more = inside ++ ('e' :: after ++ room ++ more) := by
        rw [htext, show a.bodyText.toList = inside ++ 'e' :: after from hs]
        simp only [List.append_assoc]
      rw [hinside] at hmet'
      refine not_starts_in_aliasStatement hmet' hne (by simp) ?_
      rw [List.append_assoc, ← hback]
      exact starts_of_aliasStatement hstatement
    subst heq
    refine ⟨front, a, back, hparts, ?_⟩
    have hsame : o = o' := ((mem_liveAliases_iff.mp ho).1).eq_of_offset_eq
      (mem_liveAliases_iff.mp ho').1 (by rw [hoff, hrereads.offset_eq, List.append_nil])
    exact hsame ▸ hrereads

/-! ## The working copy -/

/-- No alias reaches into an entity. -/
theorem Laid.not_covered (h : Laid parts) {e : Entity}
    (hparts : parts = front ++ declared (.entity e) :: back) {before after : List Char} {c : Char}
    (hsplit : e.bodyText.toList = before ++ c :: after) :
    ¬ Covered (aliasSpans (parts.flatMap text)) (byteLength (front.flatMap text) + byteLength before) := by
  rintro ⟨span, hspan, hstart, hstop⟩
  obtain ⟨o, ho, rfl⟩ := List.mem_map.mp hspan
  obtain ⟨front', a, back', hparts', hrereads⟩ := h.exists_of_mem_liveAliases ho
  obtain ⟨room, more, hback, hblank, htext, -⟩ := hrereads.text_eq
  have hlen := c.utf8Size_pos
  simp only [Occurrence.span, hrereads.offset_eq, htext, byteLength_append] at hstart hstop
  rcases append_cons_trichotomy (hparts.symm.trans hparts') with
    ⟨-, heq, -⟩ | ⟨mid, rfl, -⟩ | ⟨mid, rfl, rfl⟩
  · simp at heq
  · -- the alias starts after the entity
    simp only [List.flatMap_append, List.flatMap_cons, text, Symbol.bodyText, hsplit, byteLength_append,
      byteLength_cons] at hstart
    omega
  · -- its blanks end before the first letter of the entity
    obtain ⟨tail, htail⟩ := (h.portable_of_eq hparts).exists_cons
    have hcut : room ++ more = mid.flatMap text ++ 'e' :: (tail ++ back.flatMap text) := by
      rw [← hback, List.flatMap_append, List.flatMap_cons]
      exact congrArg _ (congrArg (· ++ _) htail)
    have hends : byteLength room ≤ byteLength (mid.flatMap text) := by
      obtain ⟨zs, hmid, -⟩ := exists_of_not_mem_left hcut (not_mem_of_allBlank hblank (by decide))
      rw [hmid, byteLength_append]
      omega
    simp only [List.flatMap_append, List.flatMap_cons, text, Symbol.bodyText, byteLength_append] at hstop
    omega

/-- Blanking out leaves the ends of lines. -/
theorem blankSpansFrom_feed (spans : List Span) (pos : Nat) : blankSpansFrom spans pos ['\n'] = ['\n'] := by
  simp [blankSpansFrom, blanked]

theorem getLast?_blankSpansFrom {spans : List Span} {pos : Nat} {cs : List Char}
    (h : ∀ c ∈ cs.getLast?, c = '\n') : ∀ c ∈ (blankSpansFrom spans pos cs).getLast?, c = '\n' := by
  intro c hc
  rcases List.eq_nil_or_concat' cs with rfl | ⟨front, d, rfl⟩
  · simp [blankSpansFrom] at hc
  · obtain rfl : d = '\n' := h d (by simp)
    rw [blankSpansFrom_append, blankSpansFrom_feed, List.getLast?_concat] at hc
    exact (Option.some.inj hc).symm

theorem head?_blankSpansFrom {spans : List Span} {pos : Nat} {cs : List Char}
    (h : ∀ c ∈ cs.head?, c = '\n') : ∀ c ∈ (blankSpansFrom spans pos cs).head?, c = '\n' := by
  intro c hc
  cases cs with
  | nil => simp [blankSpansFrom] at hc
  | cons d cs =>
    obtain rfl : d = '\n' := h d rfl
    rw [← List.singleton_append, blankSpansFrom_append, blankSpansFrom_feed] at hc
    exact (Option.some.inj hc).symm

/-- In the working copy an entity stays as it is, on lines of its own. -/
theorem Laid.exists_workingCopy_eq (h : Laid parts) {e : Entity}
    (hparts : parts = front ++ declared (.entity e) :: back) :
    ∃ before after, workingCopy (parts.flatMap text) = before ++ (e.bodyText.toList ++ after) ∧
      byteLength before = byteLength (front.flatMap text) ∧ (∀ c ∈ before.getLast?, c = '\n') ∧
      ∀ c ∈ after.head?, c = '\n' := by
  have hself : blankSpansFrom (aliasSpans (parts.flatMap text)) (byteLength (front.flatMap text))
      e.bodyText.toList = e.bodyText.toList :=
    blankSpansFrom_of_not_covered fun before c after hsplit => h.not_covered hparts hsplit
  have hcopy := blankSpans_append (aliasSpans (parts.flatMap text)) (front.flatMap text)
    e.bodyText.toList (back.flatMap text)
  rw [hself] at hcopy
  obtain ⟨hfront, hback⟩ := h.onLines _ _ _ hparts
  refine ⟨_, _, Eq.trans ?_ hcopy, byteLength_blankSpansFrom .., getLast?_blankSpansFrom hfront,
    head?_blankSpansFrom hback⟩
  exact congrArg (blankSpans · (aliasSpans (parts.flatMap text))) (flatMap_text_eq hparts)

/-! ## Entities -/

/-- The declaration of an entity whose text starts at byte `n`: its header, and the byte at which it
ends. -/
def declarationAt (n : Nat) (e : Entity) : Option (Occurrence EntityHeader × Nat) :=
  (entityHeader e.bodyText.toList).map fun found =>
    (⟨n, taken e.bodyText.toList found.2, found.1⟩, n + byteLength e.bodyText.toList)

/-- The declarations of the entities among the parts. -/
def declarations (parts : List Part) : List (Occurrence EntityHeader × Nat) :=
  (placed 0 parts).filterMap fun place =>
    match place.2 with
    | .entity e => declarationAt place.1 e
    | .derived _ => none

theorem mem_declarations_iff {f : Occurrence EntityHeader × Nat} :
    f ∈ declarations parts ↔ ∃ front e back, parts = front ++ declared (.entity e) :: back ∧
      declarationAt (byteLength (front.flatMap text)) e = some f := by
  unfold declarations
  rw [List.mem_filterMap]
  constructor
  · rintro ⟨⟨n, s⟩, hplaced, hf⟩
    obtain ⟨front, back, hparts, rfl⟩ := mem_placed_iff.mp hplaced
    cases s with
    | entity e => exact ⟨front, e, back, hparts, by rwa [Nat.zero_add] at hf⟩
    | derived a => simp at hf
  · rintro ⟨front, e, back, hparts, hf⟩
    refine ⟨(_, .entity e), mem_placed_iff.mpr ⟨front, back, hparts, rfl⟩, ?_⟩
    rwa [← Nat.zero_add (byteLength _)] at hf

/-- The declaration `f` is the entity `e`, put after `front`. -/
structure Redeclares (front : List Part) (e : Entity) (f : Occurrence EntityHeader × Nat) : Prop where
  offset_eq : f.1.offset = byteLength (front.flatMap text)
  stop_eq : f.2 = byteLength (front.flatMap text) + byteLength e.bodyText.toList
  name_eq : e.name.toList = f.1.value.name
  physicalName_eq : e.physicalName.toList = f.1.value.physicalName

/-- Every entity is declared where it was put. -/
theorem Laid.exists_redeclares (h : Laid parts) {e : Entity}
    (hparts : parts = front ++ declared (.entity e) :: back) :
    ∃ f, declarationAt (byteLength (front.flatMap text)) e = some f ∧ Redeclares front e f ∧
      f.1 ∈ occurrences entityHeader (workingCopy (parts.flatMap text)) ∧
      within (inertSpans (parts.flatMap text)) f.1.offset = false ∧
      declarationEnd (workingCopy (parts.flatMap text)) (f.1.offset + byteLength f.1.value.lead) =
        .ok f.2 := by
  obtain ⟨header, d, hd⟩ := h.portable_of_eq hparts
  obtain ⟨head, more, hbody, hheader⟩ := hd.starts
  obtain ⟨before, after, hcopy, hlen, hbefore, hafter⟩ := h.exists_workingCopy_eq hparts
  have hmet := entityHeader_of_isHeader hheader (more ++ after)
  refine ⟨(⟨_, head, header⟩, _), ?_, ⟨rfl, rfl, hd.name_eq, hd.physicalName_eq⟩, ?_,
    h.within_start hparts, ?_⟩
  · rw [declarationAt, hd.body_eq, hbody, entityHeader_of_isHeader hheader]
    simp [taken_append]
  · refine mem_occurrences_entityHeader_of_line ⟨before, _, ?_, hlen.symm, hmet⟩ hcopy hlen.symm hbefore
    rw [hcopy, hd.body_eq, hbody, List.append_assoc]
  · have hend : declarationEnd ((before ++ d.lead) ++ (d.call ++ (d.term ++ after)))
        (byteLength (before ++ d.lead)) =
          .ok (byteLength (before ++ d.lead) + byteLength d.call + byteLength d.term) :=
      declarationEnd_eq hd.closes hd.terminator hafter
    rw [hcopy, hd.body_eq, DeclarationParts.body, hd.lead_eq]
    simp only [byteLength_append, List.append_assoc, hlen] at hend ⊢
    rw [hend]
    simp only [Nat.add_assoc]

/-- A live header stands in an entity. -/
theorem Laid.exists_entity_of_header (h : Laid parts) {header : Occurrence EntityHeader}
    (hheader : header ∈ occurrences entityHeader (workingCopy (parts.flatMap text)))
    (hlive : within (inertSpans (parts.flatMap text)) header.offset = false) :
    ∃ front e back inside after, parts = front ++ declared (.entity e) :: back ∧
      e.bodyText.toList = inside ++ 'e' :: after ∧
      header.offset = byteLength (front.flatMap text) + byteLength inside := by
  obtain ⟨before, lead, rest, -, -, hsource, hoff, -⟩ := exists_of_header hheader hlive
  rw [hoff] at hlive
  obtain ⟨front, s, back, inside, after, hparts, hs, rfl, -, -⟩ :=
    exists_declared_of_live h.settled hsource (by decide) hlive
  rw [byteLength_append] at hoff
  cases s with
  | entity e => exact ⟨front, e, back, inside, after, hparts, hs, hoff⟩
  | derived a =>
    -- what an alias covers is not kept in the working copy
    exfalso
    obtain ⟨front', rest', hworking, hfront', -, hmet⟩ :=
      exists_of_mem_occurrences consumes_entityHeader hheader
    obtain ⟨⟨tail, after', hlead, -, hcs, -⟩, -⟩ := entityHeader_eq_some hmet
    rw [hcs, hlead, List.cons_append] at hworking
    obtain ⟨o, ho, hrereads⟩ := h.exists_rereads hparts
    obtain ⟨room, more, -, -, htext, -⟩ := hrereads.text_eq
    refine not_covered_of_kept hworking (by decide) (by decide) ⟨o.span, List.mem_map_of_mem ho, ?_⟩
    rw [Symbol.bodyText_derived] at hs
    have hlen := 'e'.utf8Size_pos
    simp only [Occurrence.span, hrereads.offset_eq, htext, hs, byteLength_append, byteLength_cons]
    omega

theorem of_declarationAt {n : Nat} {e : Entity} {f : Occurrence EntityHeader × Nat}
    (h : declarationAt n e = some f) : f.1.offset = n ∧ f.2 = n + byteLength e.bodyText.toList ∧
      0 < byteLength e.bodyText.toList := by
  obtain ⟨⟨header, rest⟩, hmet, rfl⟩ := Option.map_eq_some_iff.mp h
  refine ⟨rfl, rfl, Nat.pos_of_ne_zero fun hzero => ?_⟩
  obtain ⟨head, hne, hbody⟩ := consumes_entityHeader _ _ _ hmet
  exact hne (List.append_eq_nil_iff.mp (hbody ▸ byteLength_eq_zero.mp hzero)).1

theorem pairwise_declarations (parts : List Part) :
    (declarations parts).Pairwise fun f g => f.1.offset < g.1.offset ∧ f.2 ≤ g.1.offset := by
  refine List.pairwise_filterMap.mpr ((pairwise_placed 0 parts).imp ?_)
  rintro ⟨n, s⟩ ⟨n', s'⟩ hle f hf g hg
  cases s with
  | derived a => simp at hf
  | entity e =>
    cases s' with
    | derived a => simp at hg
    | entity e' =>
      obtain ⟨hstart, hstop, hpos⟩ := of_declarationAt hf
      obtain ⟨hstart', -, -⟩ := of_declarationAt hg
      rw [Symbol.bodyText_entity] at hle
      omega

/-- The declarations that are found are those of the entities that were put there. -/
theorem Laid.collects (h : Laid parts) :
    Collects (workingCopy (parts.flatMap text)) (inertSpans (parts.flatMap text)) 0
      (occurrences entityHeader (workingCopy (parts.flatMap text))) (declarations parts) := by
  refine .of_forall (pairwise_offset_occurrences consumes_entityHeader _) (fun f hf => ?_)
    (pairwise_declarations parts) fun header hheader hlive => Or.inr ?_
  · obtain ⟨front, e, back, hparts, hf⟩ := mem_declarations_iff.mp hf
    obtain ⟨f', hf', -, hlisted, hlive, hend⟩ := h.exists_redeclares hparts
    obtain rfl : f' = f := Option.some.inj (hf'.symm.trans hf)
    exact ⟨hlisted, hlive, Nat.zero_le _, hend⟩
  · obtain ⟨front, e, back, inside, after, hparts, hsplit, hoff⟩ :=
      h.exists_entity_of_header hheader hlive
    obtain ⟨f, hf, hdeclares, hlisted, -⟩ := h.exists_redeclares hparts
    refine ⟨f, mem_declarations_iff.mpr ⟨front, e, back, hparts, hf⟩, ?_⟩
    cases inside with
    | nil =>
      refine Or.inl (MetAt.eq_of_offset_eq (metAt_of_mem_occurrences consumes_entityHeader hlisted)
        (metAt_of_mem_occurrences consumes_entityHeader hheader) ?_)
      rw [hoff, hdeclares.offset_eq, byteLength_nil, Nat.add_zero]
    | cons d inside =>
      have hlen := d.utf8Size_pos
      have hlen' := 'e'.utf8Size_pos
      rw [hoff, hdeclares.offset_eq, hdeclares.stop_eq, hsplit]
      simp only [byteLength_append, byteLength_cons]
      omega

end Part

end SchemaModules
