import Mathlib.Data.List.Infix
import SchemaModules.Proofs.Statements

/-!
# Proofs: no declaration starts inside another

Both forms start with `export`, blanks, and the first letter of a keyword. Inside an alias statement
there is no such place, and inside the header of an entity there is none but in the name of the table,
which may hold any characters of one line. A header that starts there has to find its own quotes, and
takes the first of them from the header around it: so the name that it reads starts where the columns of
the other open.
-/

namespace SchemaModules.Declaration

open Text Lexical

/-- The text starts as both forms do. -/
def Starts (cs : List Char) : Prop :=
  ∃ gap c rest, cs = "export".toList ++ (gap ++ c :: rest) ∧ IsGap gap ∧ (c = 't' ∨ c = 'c')

theorem Starts.head? {cs : List Char} (h : Starts cs) : cs.head? = some 'e' := by
  obtain ⟨gap, c, rest, rfl, -, -⟩ := h
  rfl

/-- The word that the text starts with is `export`, and a keyword may come after it. -/
theorem Starts.eq_export {word rest : List Char} (h : Starts (word ++ rest))
    (hword : ∀ c ∈ word, isWordChar c = true) (hrest : Stops isWordChar rest) :
    word = "export".toList ∧ ∃ c ∈ (blanks rest).head?, c = 't' ∨ c = 'c' := by
  obtain ⟨gap, c, tail, heq, ⟨hne, hblank⟩, hc⟩ := h
  have hgap : Stops isWordChar (gap ++ c :: tail) :=
    stops_append hne (fun d hd => isWordChar_of_isBlank (allBlank_iff.mp hblank d hd)) _
  have hexport : ∀ d ∈ "export".toList, isWordChar d = true := List.all_eq_true.mp (by decide)
  have htake := congrArg (List.takeWhile isWordChar) heq
  rw [takeWhile_of_stops hword hrest, takeWhile_of_stops hexport hgap] at htake
  subst htake
  have hdrop : rest = gap ++ c :: tail := List.append_cancel_left heq
  have hcBlank : isBlank c = false := by
    rcases hc with rfl | rfl <;> decide
  refine ⟨rfl, c, ?_, hc⟩
  rw [hdrop, blanks_eq_iff.mpr ⟨gap, rfl, hblank, stops_cons hcBlank tail⟩]
  rfl

theorem IsOpening.starts {keyword : String} {name text : List Char}
    (h : IsOpening keyword name text)
    (hkeyword : ∃ c ∈ keyword.toList.head?, c = 't' ∨ c = 'c') (rest : List Char) :
    Starts (text ++ rest) := by
  obtain ⟨gap₁, gap₂, room₁, room₂, hgap₁, -, -, -, -, rfl⟩ := h
  obtain ⟨c, hhead, hc⟩ := hkeyword
  obtain ⟨tail, htail⟩ := List.head?_eq_some_iff.mp hhead
  refine ⟨gap₁, c, tail ++ (gap₂ ++ (name ++ (room₁ ++ ("=".toList ++ (room₂ ++ rest))))), ?_, hgap₁,
    hc⟩
  rw [htail]
  simp only [List.append_assoc, List.cons_append]

theorem starts_of_aliasStatement {cs rest : List Char} {st : AliasStatement}
    (h : aliasStatement cs = some (st, rest)) : Starts cs := by
  obtain ⟨core, room, stop, ⟨opening, gap, room₁, room₂, hopening, -, -, -, -, rfl⟩, -, -, rfl⟩ :=
    exists_of_aliasStatement h
  rw [List.append_assoc]
  exact hopening.starts ⟨'t', rfl, Or.inl rfl⟩ _

theorem starts_of_entityHeader {cs rest : List Char} {header : EntityHeader}
    (h : entityHeader cs = some (header, rest)) : Starts cs := by
  obtain ⟨text, rfl, opening, builder, room₁, room₂, q, q', room₃, room₄, hopening, -, -, -, -, -, -,
    -, -, hlead, rfl⟩ := exists_of_entityHeader h
  rw [hlead, List.append_assoc, List.append_assoc]
  exact hopening.starts ⟨'c', rfl, Or.inr rfl⟩ _

/-! ## Texts in which nothing starts -/

/-- At no character of the text does a declaration start, where `rest` comes after the text. -/
def Barren (text rest : List Char) : Prop :=
  ∀ before after, text = before ++ after → after ≠ [] → ¬ Starts (after ++ rest)

theorem barren_nil (rest : List Char) : Barren [] rest := by
  intro before after h hne
  exact absurd (List.append_eq_nil_iff.mp h.symm).2 hne

theorem Barren.append {xs ys rest : List Char} (hx : Barren xs (ys ++ rest)) (hy : Barren ys rest) :
    Barren (xs ++ ys) rest := by
  intro before after h hne
  rcases List.append_eq_append_iff.mp h with ⟨zs, rfl, hys⟩ | ⟨zs, hxs, rfl⟩
  · exact hy zs after hys hne
  · cases zs with
    | nil => exact hy [] ys rfl (by simpa using hne)
    | cons z zs =>
      rw [List.append_assoc]
      exact hx before (z :: zs) hxs (by simp)

theorem barren_of_not_mem {text rest : List Char} (h : 'e' ∉ text) : Barren text rest := by
  rintro before after rfl hne hstarts
  obtain ⟨c, after, rfl⟩ := List.exists_cons_of_ne_nil hne
  have hc : c = 'e' := Option.some.inj hstarts.head?
  exact h (by simp [hc])

theorem barren_of_allBlank {room rest : List Char} (h : allBlank room = true) : Barren room rest :=
  barren_of_not_mem (not_mem_of_allBlank h (by decide))

/-- In a word nothing starts, unless it ends in `export` and a keyword may come after it. -/
theorem barren_of_word {word rest : List Char} (hword : ∀ c ∈ word, isWordChar c = true)
    (hrest : Stops isWordChar rest)
    (h : ¬ "export".toList <:+ word ∨ ∀ c ∈ (blanks rest).head?, c ≠ 't' ∧ c ≠ 'c') :
    Barren word rest := by
  rintro before after rfl - hstarts
  obtain ⟨rfl, c, hc, hletter⟩ :=
    hstarts.eq_export (fun c hc => hword c (List.mem_append_right _ hc)) hrest
  rcases h with h | h
  · exact h (List.suffix_append ..)
  · obtain ⟨ht, hc'⟩ := h c hc
    exact hletter.elim ht hc'

/-- In a text nothing starts when each `e` in it has a character other than `x` after it. -/
theorem barren_of_tails {text rest : List Char}
    (h : ∀ tail ∈ text.tails, tail.head? = some 'e' → tail[1]?.any (· != 'x') = true) :
    Barren text rest := by
  rintro before after rfl hne hstarts
  obtain ⟨c, after, rfl⟩ := List.exists_cons_of_ne_nil hne
  have hmem : c :: after ∈ (before ++ c :: after).tails :=
    (List.mem_tails _ _).mpr (List.suffix_append ..)
  have hother := h _ hmem hstarts.head?
  obtain ⟨gap, k, tail, heq, -, -⟩ := hstarts
  cases after with
  | nil => simp at hother
  | cons b after =>
    obtain rfl : b = 'x' := Option.some.inj (congrArg (fun cs => cs[1]?) heq)
    simp at hother

/-- In a name that blanks and `c` come after nothing starts, when `c` does not start a keyword. -/
theorem barren_of_name {name room rest : List Char} {c : Char}
    (hname : ∀ d ∈ name, isWordChar d = true) (hroom : allBlank room = true)
    (hword : isWordChar c = false) (hblank : isBlank c = false) (hc : c ≠ 't' ∧ c ≠ 'c') :
    Barren name (room ++ c :: rest) := by
  refine barren_of_word hname (stops_isWordChar_of_allBlank hroom (stops_cons hword rest)) ?_
  refine Or.inr fun d hd => ?_
  rw [blanks_eq_iff.mpr ⟨room, rfl, hroom, stops_cons hblank rest⟩] at hd
  rwa [← Option.some.inj hd]

theorem barren_of_keyword {keyword : String} (hword : keyword.toList.all isWordChar = true)
    (hsuffix : ¬ "export".toList <:+ keyword.toList) {gap rest : List Char} (hgap : IsGap gap) :
    Barren keyword.toList (gap ++ rest) :=
  barren_of_word (List.all_eq_true.mp hword)
    (stops_append hgap.1 (fun _ hc => isWordChar_of_isBlank (allBlank_iff.mp hgap.2 _ hc)) rest)
    (Or.inl hsuffix)

/-- After its first letter nothing starts in an opening. -/
theorem IsOpening.barren {keyword : String} {name text rest : List Char} {c : Char}
    (h : IsOpening keyword name (c :: text)) (hword : keyword.toList.all isWordChar = true)
    (hsuffix : ¬ "export".toList <:+ keyword.toList) : Barren text rest := by
  obtain ⟨gap₁, gap₂, room₁, room₂, hgap₁, hgap₂, hroom₁, hroom₂, hname, heq⟩ := h
  obtain rfl : text = "xport".toList ++ (gap₁ ++ (keyword.toList ++ (gap₂ ++ (name ++ (room₁ ++
      ("=".toList ++ room₂)))))) := (List.cons.inj heq).2
  refine Barren.append (barren_of_not_mem (by decide)) ?_
  refine (barren_of_allBlank hgap₁.2).append ?_
  refine Barren.append ?_ ((barren_of_allBlank hgap₂.2).append (Barren.append ?_ ?_))
  · rw [List.append_assoc]
    exact barren_of_keyword hword hsuffix hgap₂
  · rw [List.append_assoc]
    exact barren_of_name hname.2 hroom₁ (by decide) (by decide) (by decide)
  · exact (barren_of_allBlank hroom₁).append
      (Barren.append (barren_of_not_mem (by decide)) (barren_of_allBlank hroom₂))

/-- Inside an alias statement nothing starts. -/
theorem not_starts_in_aliasStatement {before after rest : List Char} {st : AliasStatement}
    (h : aliasStatement (before ++ (after ++ rest)) = some (st, rest)) (hbefore : before ≠ [])
    (hafter : after ≠ []) : ¬ Starts (after ++ rest) := by
  obtain ⟨core, room, stop, ⟨opening, gap, room₁, room₂, hopening, hgap, hroom₁, hroom₂, hname, rfl⟩,
    hroom, hstop, heq⟩ := exists_of_aliasStatement h
  obtain ⟨c, before, rfl⟩ := List.exists_cons_of_ne_nil hbefore
  obtain ⟨tail, rfl⟩ := hopening.exists_tail
  have hend : Barren stop rest := by
    rcases hstop with rfl | ⟨rfl, -⟩
    · exact barren_of_not_mem (by decide)
    · exact barren_nil rest
  have hshape : Barren (shapeText st.shape) (room ++ stop ++ rest) := by
    cases st.shape <;> exact barren_of_tails (by decide)
  have hbarren : Barren (tail ++ ("typeof".toList ++ (gap ++ (st.referenced ++ (room₁ ++
      (".".toList ++ (room₂ ++ ("$infer".toList ++ (shapeText st.shape ++ (room ++ stop))))))))))
        rest := by
    refine (hopening.barren (by decide) (by decide)).append (Barren.append ?_ ?_)
    · rw [List.append_assoc]
      exact barren_of_keyword (by decide) (by decide) hgap
    refine (barren_of_allBlank hgap.2).append (Barren.append ?_ ?_)
    · rw [List.append_assoc]
      exact barren_of_name hname.2 hroom₁ (by decide) (by decide) (by decide)
    refine (barren_of_allBlank hroom₁).append (Barren.append (barren_of_not_mem (by decide)) ?_)
    refine (barren_of_allBlank hroom₂).append (Barren.append (barren_of_tails (by decide)) ?_)
    exact hshape.append ((barren_of_allBlank hroom).append hend)
  refine hbarren before after ?_ hafter
  have hcons : c :: (before ++ after) ++ rest = 'e' :: (tail ++ ("typeof".toList ++ (gap ++
      (st.referenced ++ (room₁ ++ (".".toList ++ (room₂ ++ ("$infer".toList ++
        (shapeText st.shape ++ (room ++ stop)))))))))) ++ rest := by
    simpa only [List.cons_append, List.append_assoc] using heq
  exact (List.cons.inj (List.append_cancel_right hcons)).2.symm

/-! ## Headers -/

/-- The name of a table starts as the columns of a header open: with a comma and a brace, and perhaps
blanks before each. -/
def OpensFields (name : List Char) : Prop :=
  ∃ room room' rest, name = room ++ ',' :: (room' ++ '\x7b' :: rest) ∧ allBlank room = true ∧
    allBlank room' = true

theorem isQuote_of_isBlank {c : Char} (h : isBlank c = true) : isQuote c = false := by
  cases hc : isQuote c with
  | false => rfl
  | true =>
    rw [isBlank_of_isQuote hc] at h
    exact Bool.noConfusion h

theorem isQuote_of_isNeutral {c : Char} (h : isNeutral c = true) : isQuote c = false := by
  have hne := ne_of_isNeutral h
  simp [isQuote, hne '"' (by decide), hne '\'' (by decide)]

/-- After its first letter nothing starts in a header before the name of its table. -/
theorem barren_lead {name tail builder room room' rest : List Char} {q : Char}
    (hopening : IsOpening "const" name ('e' :: tail)) (hbuilder : IsBuilder builder)
    (hroom : allBlank room = true) (hroom' : allBlank room' = true) (hq : isQuote q = true) :
    Barren (tail ++ (builder ++ (room ++ '(' :: (room' ++ [q])))) rest := by
  refine (hopening.barren (by decide) (by decide)).append (Barren.append ?_ ?_)
  · rw [List.append_assoc, List.cons_append]
    exact barren_of_name hbuilder.2 hroom (by decide) (by decide) (by decide)
  · refine (barren_of_allBlank hroom).append (barren_of_not_mem fun he => ?_)
    rcases List.mem_cons.mp he with he | he
    · exact absurd he (by decide)
    · rcases List.mem_append.mp he with he | he
      · exact not_mem_of_allBlank hroom' (by decide) he
      · rw [← List.mem_singleton.mp he] at hq
        exact absurd hq (by decide)

/-- Nothing starts where the columns of a header open. -/
theorem barren_columns {room room' rest : List Char} {q : Char} (hq : isQuote q = true)
    (hroom : allBlank room = true) (hroom' : allBlank room' = true) :
    Barren (q :: (room ++ ',' :: (room' ++ ['\x7b']))) rest := by
  refine barren_of_not_mem fun he => ?_
  simp only [List.mem_append, List.mem_cons, List.not_mem_nil, or_false] at he
  rcases he with rfl | he | he | he | he
  · exact absurd hq (by decide)
  · exact not_mem_of_allBlank hroom (by decide) he
  · exact absurd he (by decide)
  · exact not_mem_of_allBlank hroom' (by decide) he
  · exact absurd he (by decide)

/-- Inside a header nothing starts but in the name of the table. -/
theorem exists_of_starts_in_entityHeader {before after rest : List Char} {header : EntityHeader}
    (h : entityHeader (before ++ (after ++ rest)) = some (header, rest)) (hbefore : before ≠ [])
    (hafter : after ≠ []) (hstarts : Starts (after ++ rest)) :
    ∃ front q name inside q' room room', before = front ++ q :: name ∧
      after = inside ++ q' :: (room ++ ',' :: (room' ++ ['\x7b'])) ∧ isQuote q = true ∧
      isQuote q' = true ∧ (∀ c ∈ name ++ inside, isInside c = true) ∧ allBlank room = true ∧
      allBlank room' = true := by
  obtain ⟨text, heq, opening, builder, room₁, room₂, q, q', room₃, room₄, hopening, hbuilder, hroom₁,
    hroom₂, hq, hq', hroom₃, hroom₄, hinside, hlead, htext⟩ := exists_of_entityHeader h
  obtain ⟨c, before, rfl⟩ := List.exists_cons_of_ne_nil hbefore
  obtain ⟨tail, rfl⟩ := hopening.exists_tail
  -- the header is cut into what stands before the name, the name, and what stands after it
  generalize hfront : tail ++ (builder ++ (room₁ ++ '(' :: (room₂ ++ [q]))) = front
  generalize hback : q' :: (room₃ ++ ',' :: (room₄ ++ ['\x7b'])) = back
  have hfrontBarren : Barren front (header.physicalName ++ back ++ rest) :=
    hfront ▸ barren_lead hopening hbuilder hroom₁ hroom₂ hq
  have hbackBarren : Barren back rest := hback ▸ barren_columns hq' hroom₃ hroom₄
  have hcut : c :: (before ++ after) = 'e' :: (front ++ (header.physicalName ++ back)) := by
    have hall : c :: (before ++ after) ++ rest =
        'e' :: (front ++ (header.physicalName ++ back)) ++ rest := by
      rw [← List.cons_append, List.append_assoc, heq, htext, hlead, ← hfront, ← hback]
      simp only [List.cons_append, List.append_assoc, List.nil_append]
    exact List.append_cancel_right hall
  obtain ⟨hc, hrest⟩ := List.cons.inj hcut
  have hafterFront : ∃ zs, before = front ++ zs ∧ header.physicalName ++ back = zs ++ after := by
    rcases List.append_eq_append_iff.mp hrest with ⟨zs, hzs, rfl⟩ | hlater
    · cases zs with
      | nil => exact ⟨[], by rw [hzs, List.append_nil, List.append_nil], rfl⟩
      | cons z zs =>
        refine absurd ?_ (hfrontBarren before (z :: zs) hzs (by simp))
        simpa only [List.append_assoc] using hstarts
    · exact hlater
  obtain ⟨zs, rfl, hzs⟩ := hafterFront
  rcases List.append_eq_append_iff.mp hzs with ⟨ws, -, hws⟩ | ⟨inside, hname, rfl⟩
  · exact absurd hstarts (hbackBarren ws after hws hafter)
  · refine ⟨'e' :: (tail ++ (builder ++ (room₁ ++ '(' :: room₂))), q, zs, inside, q', room₃, room₄, ?_,
      by rw [hback], hq, hq', ?_, hroom₃, hroom₄⟩
    · rw [← hfront, hc]
      simp only [List.cons_append, List.append_assoc, List.nil_append]
    · rw [← hname]
      exact hinside

/-- A header that starts inside another reads a name that starts where the columns of the other open. -/
theorem opensFields_of_entityHeader_in {before after rest rest' : List Char}
    {header header' : EntityHeader} (h : entityHeader (before ++ (after ++ rest)) = some (header, rest))
    (hbefore : before ≠ []) (hafter : after ≠ [])
    (h' : entityHeader (after ++ rest) = some (header', rest')) : OpensFields header'.physicalName := by
  obtain ⟨front, q, name, inside, q', room, room', -, rfl, hq, hq', hinside, hroom, hroom'⟩ :=
    exists_of_starts_in_entityHeader h hbefore hafter (starts_of_entityHeader h')
  obtain ⟨text, heq, hheader⟩ := exists_of_entityHeader h'
  have hneutral := hheader.neutral_lead
  obtain ⟨opening, builder, room₁, room₂, q₁, q₂, room₃, room₄, -, -, -, hroom₂, hq₁, hq₂, -, -, -, -,
    rfl⟩ := hheader
  have hlead : ∀ d ∈ header'.lead ++ '(' :: room₂, (!isQuote d) = true := by
    simp only [List.forall_mem_append, List.forall_mem_cons, Bool.not_eq_true']
    exact ⟨fun d hd => isQuote_of_isNeutral (hneutral d hd), by decide,
      fun d hd => isQuote_of_isBlank (allBlank_iff.mp hroom₂ d hd)⟩
  have hinside' : ∀ d ∈ inside, (!isQuote d) = true := by
    intro d hd
    have := hinside d (List.mem_append_right _ hd)
    rw [isInside, Bool.and_eq_true] at this
    exact this.1
  -- the first quote is the one at which the other header's name ends
  have hcut : inside ++ q' :: (room ++ ',' :: (room' ++ '\x7b' :: rest)) =
      (header'.lead ++ '(' :: room₂) ++ q₁ :: (header'.physicalName ++ q₂ :: (room₃ ++ ',' :: (room₄ ++
        '\x7b' :: rest'))) := by
    simpa only [List.append_assoc, List.cons_append, List.nil_append] using heq
  have hrest := (append_inj_of_stops hcut hinside' hlead (stops_cons (by simp [hq']) _)
    (stops_cons (by simp [hq₁]) _)).2
  -- so the name goes on at least as long as no quote comes
  have hopens : (room ++ ',' :: (room' ++ ['\x7b'])) ++ rest =
      header'.physicalName ++ q₂ :: (room₃ ++ ',' :: (room₄ ++ '\x7b' :: rest')) := by
    simpa only [List.append_assoc, List.cons_append, List.nil_append] using (List.cons.inj hrest).2
  have hquote : q₂ ∉ room ++ ',' :: (room' ++ ['\x7b']) := by
    have hblank := isBlank_of_isQuote hq₂
    simp only [List.mem_append, List.mem_cons, List.not_mem_nil, or_false, not_or]
    refine ⟨not_mem_of_allBlank hroom hblank, ?_, not_mem_of_allBlank hroom' hblank, ?_⟩ <;>
      (rintro rfl; exact absurd hq₂ (by decide))
  obtain ⟨more, hmore, -⟩ := exists_of_not_mem_left hopens hquote
  exact ⟨room, room', more, by rw [hmore]; simp, hroom, hroom'⟩

/-- No header that starts a line stands inside another. -/
theorem getLast?_ne_of_starts_in_entityHeader {before after rest : List Char} {header : EntityHeader}
    (h : entityHeader (before ++ (after ++ rest)) = some (header, rest)) (hbefore : before ≠ [])
    (hafter : after ≠ []) (hstarts : Starts (after ++ rest)) : before.getLast? ≠ some '\n' := by
  obtain ⟨front, q, name, inside, q', room, room', rfl, -, hq, -, hinside, -, -⟩ :=
    exists_of_starts_in_entityHeader h hbefore hafter hstarts
  intro hlast
  rw [List.getLast?_append, List.getLast?_cons] at hlast
  cases hname : name.getLast? with
  | none =>
    obtain rfl : q = '\n' := by simpa [hname] using hlast
    exact absurd hq (by decide)
  | some d =>
    obtain rfl : d = '\n' := by simpa [hname] using hlast
    have hmem := List.mem_of_getLast? hname
    exact absurd (hinside '\n' (List.mem_append_left _ hmem)) (by decide)

/-! ## What the search finds -/

/-- The search for alias statements lists every one. -/
theorem mem_occurrences_aliasStatement_iff {cs : List Char} {o : Occurrence AliasStatement} :
    o ∈ occurrences aliasStatement cs ↔ MetAt aliasStatement cs o := by
  refine ⟨metAt_of_mem_occurrences consumes_aliasStatement, fun h => ?_⟩
  refine h.mem_occurrences consumes_aliasStatement fun before rest _ _ hmet haround => ?_
  obtain ⟨front, inside, more, rest', st, -, hafter, hinside, hmore, hst⟩ := haround
  rw [hafter] at hmet
  exact not_starts_in_aliasStatement hst hinside hmore (starts_of_aliasStatement hmet)

/-- The search for headers lists every one whose table has not a name that opens fields. -/
theorem mem_occurrences_entityHeader {cs : List Char} {o : Occurrence EntityHeader}
    (h : MetAt entityHeader cs o) (hname : ¬ OpensFields o.value.physicalName) :
    o ∈ occurrences entityHeader cs := by
  refine h.mem_occurrences consumes_entityHeader fun before rest _ _ hmet haround => ?_
  obtain ⟨front, inside, more, rest', header, -, hafter, hinside, hmore, hheader⟩ := haround
  rw [hafter] at hmet
  exact hname (opensFields_of_entityHeader_in hheader hinside hmore hmet)

/-- The search for headers lists every one that starts a line. -/
theorem mem_occurrences_entityHeader_of_line {cs before after : List Char} {o : Occurrence EntityHeader}
    (h : MetAt entityHeader cs o) (hcs : cs = before ++ after) (hoff : o.offset = byteLength before)
    (hline : ∀ c ∈ before.getLast?, c = '\n') : o ∈ occurrences entityHeader cs := by
  refine h.mem_occurrences consumes_entityHeader fun before' rest hcs' hoff' hmet haround => ?_
  obtain ⟨front, inside, more, rest', header, hbefore, hafter, hinside, hmore, hheader⟩ := haround
  rw [hafter] at hmet
  have hsame := (append_inj_of_byteLength (hcs.symm.trans hcs') (by omega)).1
  refine getLast?_ne_of_starts_in_entityHeader hheader hinside hmore (starts_of_entityHeader hmet) ?_
  obtain ⟨c, hc⟩ := Option.isSome_iff_exists.mp (List.getLast?_isSome.mpr hinside)
  have hlast : c ∈ before.getLast? := by
    rw [hsame, hbefore, List.getLast?_append, hc]
    rfl
  rw [hc, hline c hlast]

end SchemaModules.Declaration
