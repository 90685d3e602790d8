import SchemaModules.Proofs.Forms
import SchemaModules.Proofs.Reading

/-!
# Proofs: what the two forms of declaration take

An alias statement is neutral text as a whole. Of the header of an entity the part before the bracket
that opens the builder call is.
-/

namespace SchemaModules.Declaration

open Text Lexical

/-- The characters of a class that holds no mark are neutral. -/
theorem isNeutral_of_class {q : Char → Bool} (hq : marks.all (fun d => !q d) = true) {c : Char}
    (hc : q c = true) : isNeutral c = true := by
  by_contra h
  have hmem : c ∈ marks := by simpa [isNeutral] using h
  have hnot := List.all_eq_true.mp hq c hmem
  rw [hc] at hnot
  exact Bool.noConfusion hnot

theorem isNeutral_of_isWordChar {c : Char} (h : isWordChar c = true) : isNeutral c = true :=
  isNeutral_of_class (by decide) h

theorem isNeutral_of_isBlank {c : Char} (h : isBlank c = true) : isNeutral c = true :=
  isNeutral_of_class (by decide) h

/-! ## The pieces -/

theorem neutral_of_allBlank {room : List Char} (h : allBlank room = true) :
    ∀ c ∈ room, isNeutral c = true :=
  fun c hc => isNeutral_of_isBlank (allBlank_iff.mp h c hc)

theorem IsName.neutral {name : List Char} (h : IsName name) : ∀ c ∈ name, isNeutral c = true :=
  fun c hc => isNeutral_of_isWordChar (h.2 c hc)

theorem neutral_of_literal {w : String} (h : w.toList.all isNeutral = true) :
    ∀ c ∈ w.toList, isNeutral c = true :=
  List.all_eq_true.mp h

theorem IsOpening.neutral {keyword : String} (hkeyword : keyword.toList.all isNeutral = true)
    {name text : List Char} (h : IsOpening keyword name text) : ∀ c ∈ text, isNeutral c = true := by
  obtain ⟨gap₁, gap₂, room₁, room₂, hgap₁, hgap₂, hroom₁, hroom₂, hname, rfl⟩ := h
  simp only [List.forall_mem_append]
  exact ⟨neutral_of_literal (by decide), neutral_of_allBlank hgap₁.2, neutral_of_literal hkeyword,
    neutral_of_allBlank hgap₂.2, hname.neutral, neutral_of_allBlank hroom₁,
    neutral_of_literal (by decide), neutral_of_allBlank hroom₂⟩

theorem IsAliasCore.neutral {st : AliasStatement} {text : List Char} (h : IsAliasCore st text) :
    ∀ c ∈ text, isNeutral c = true := by
  obtain ⟨opening, gap, room₁, room₂, hopening, hgap, hroom₁, hroom₂, hname, rfl⟩ := h
  have hshape : ∀ c ∈ shapeText st.shape, isNeutral c = true := by
    cases st.shape <;> exact neutral_of_literal (by decide)
  simp only [List.forall_mem_append]
  exact ⟨hopening.neutral (by decide), neutral_of_literal (by decide), neutral_of_allBlank hgap.2,
    hname.neutral, neutral_of_allBlank hroom₁, neutral_of_literal (by decide),
    neutral_of_allBlank hroom₂, neutral_of_literal (by decide), hshape⟩

theorem IsBuilder.neutral {run : List Char} (h : IsBuilder run) : ∀ c ∈ run, isNeutral c = true :=
  fun c hc => isNeutral_of_isWordChar (h.2 c hc)

theorem IsHeader.neutral_lead {header : EntityHeader} {text : List Char} (h : IsHeader header text) :
    ∀ c ∈ header.lead, isNeutral c = true := by
  obtain ⟨opening, builder, room, _, _, _, _, _, hopening, hbuilder, hroom, -, -, -, -, -, -, hlead, -⟩ :=
    h
  rw [hlead]
  simp only [List.forall_mem_append]
  exact ⟨hopening.neutral (by decide), hbuilder.neutral, neutral_of_allBlank hroom⟩

/-- What follows the first letter of an opening. -/
theorem IsOpening.exists_tail {keyword : String} {name text : List Char}
    (h : IsOpening keyword name text) : ∃ tail, text = 'e' :: tail := by
  obtain ⟨gap₁, gap₂, room₁, room₂, -, -, -, -, -, rfl⟩ := h
  exact ⟨_, rfl⟩

theorem IsOpening.isName {keyword : String} {name text : List Char}
    (h : IsOpening keyword name text) : IsName name := by
  obtain ⟨gap₁, gap₂, room₁, room₂, -, -, -, -, hname, -⟩ := h
  exact hname

/-! ## The patterns -/

/-- An alias statement starts with the `e` of its first word, is neutral text, and gives names. -/
theorem aliasStatement_eq_some {cs rest : List Char} {st : AliasStatement}
    (h : aliasStatement cs = some (st, rest)) :
    (∃ tail, cs = 'e' :: (tail ++ rest) ∧ ∀ c ∈ 'e' :: tail, isNeutral c = true) ∧
      IsName st.name ∧ IsName st.referenced := by
  obtain ⟨core, room, stop, hcore, hroom, hstop, rfl⟩ := exists_of_aliasStatement h
  have hneutral : ∀ c ∈ core ++ (room ++ stop), isNeutral c = true := by
    simp only [List.forall_mem_append]
    refine ⟨hcore.neutral, neutral_of_allBlank hroom, ?_⟩
    rcases hstop with rfl | ⟨rfl, -⟩
    · exact List.forall_mem_singleton.mpr (by decide)
    · simp
  obtain ⟨opening, gap, room₁, room₂, hopening, -, -, -, hreferenced, hcore⟩ := hcore
  obtain ⟨tail, rfl⟩ := hopening.exists_tail
  rw [List.cons_append] at hcore
  subst hcore
  refine ⟨⟨_ ++ (room ++ stop), ?_, hneutral⟩, hopening.isName, hreferenced⟩
  simp only [List.cons_append, List.append_assoc]

/-- The header of an entity starts with the `e` of its first word, is neutral text up to the bracket
that opens the builder call, and gives a name. -/
theorem entityHeader_eq_some {cs rest : List Char} {header : EntityHeader}
    (h : entityHeader cs = some (header, rest)) :
    (∃ tail after, header.lead = 'e' :: tail ∧ (∀ c ∈ tail, isNeutral c = true) ∧
      cs = header.lead ++ '(' :: after ∧ rest <:+ after) ∧ IsName header.name := by
  obtain ⟨text, rfl, hheader⟩ := exists_of_entityHeader h
  have hneutral := hheader.neutral_lead
  obtain ⟨opening, builder, room₁, room₂, q, q', room₃, room₄, hopening, -, -, -, -, -, -, -, -, hlead,
    rfl⟩ := hheader
  obtain ⟨tail, htail⟩ := hopening.exists_tail
  rw [htail, List.cons_append] at hlead
  refine ⟨⟨_, _, hlead, ?_, List.append_assoc .., List.suffix_append ..⟩, hopening.isName⟩
  rw [hlead] at hneutral
  exact fun c hc => hneutral c (List.mem_cons_of_mem _ hc)

theorem consumes_aliasStatement : Consumes aliasStatement := by
  intro cs st rest h
  obtain ⟨⟨tail, rfl, -⟩, -⟩ := aliasStatement_eq_some h
  exact ⟨'e' :: tail, by simp, rfl⟩

theorem consumes_entityHeader : Consumes entityHeader := by
  intro cs header rest h
  obtain ⟨⟨tail, after, hlead, -, rfl, text, rfl⟩, -⟩ := entityHeader_eq_some h
  exact ⟨header.lead ++ '(' :: text, by simp, by simp⟩

end SchemaModules.Declaration
