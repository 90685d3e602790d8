import Mathlib.Data.List.Basic
import SchemaModules.Declaration.Pattern
import SchemaModules.Proofs.Occurrences

/-!
# Proofs: the texts of the two forms of declaration

Each piece that a pattern is written from takes a run of characters off the start of a text, and asks of
the rest only that the run stops there. So what the two patterns take can be said without them, as a
sequence of words, names and blanks, and a form that is met before one rest is met before another.
-/

namespace SchemaModules

open Text

namespace Text

/-! ## Cutting a text at a character -/

section Cut

variable {xs rest front back : List Char} {c : Char}

/-- A part of a text that lacks a character ends before it. -/
theorem exists_of_not_mem_left (h : xs ++ rest = front ++ c :: back) (hc : c ∉ xs) :
    ∃ more, front = xs ++ more ∧ rest = more ++ c :: back := by
  rcases List.append_eq_append_iff.mp h with hlater | ⟨more, hmore, hrest⟩
  · exact hlater
  · cases more with
    | nil => exact ⟨[], by rw [hmore, List.append_nil, List.append_nil], hrest.symm⟩
    | cons d more =>
      obtain rfl : c = d := (List.cons.inj hrest).1
      exact absurd (by rw [hmore]; simp) hc

/-- A part of a text that lacks a character starts after it. -/
theorem exists_of_not_mem_right (h : xs ++ rest = front ++ c :: back) (hc : c ∉ rest) :
    ∃ more, xs = front ++ c :: more ∧ back = more ++ rest := by
  rcases List.append_eq_append_iff.mp h with ⟨more, -, hrest⟩ | ⟨more, hmore, hrest⟩
  · exact absurd (by rw [hrest]; simp) hc
  · cases more with
    | nil => exact absurd (by rw [← List.nil_append rest, ← hrest]; simp) hc
    | cons d more =>
      obtain ⟨rfl, hback⟩ := List.cons.inj hrest
      exact ⟨more, hmore, hback⟩

end Cut

/-! ## Runs of characters -/

/-- A run of characters of the class `q` does not go on in `rest`. -/
def Stops (q : Char → Bool) (rest : List Char) : Prop := ∀ c ∈ rest.head?, q c = false

section Stops

variable {q : Char → Bool} {c : Char} {run rest : List Char}

theorem stops_cons (hc : q c = false) (rest : List Char) : Stops q (c :: rest) := by
  intro d hd
  rwa [← Option.some.inj hd]

theorem stops_append (hne : run ≠ []) (h : ∀ c ∈ run, q c = false) (rest : List Char) :
    Stops q (run ++ rest) := by
  obtain ⟨c, run, rfl⟩ := List.exists_cons_of_ne_nil hne
  exact stops_cons (h c (List.mem_cons_self ..)) _

theorem stops_dropWhile (q : Char → Bool) (cs : List Char) : Stops q (cs.dropWhile q) := by
  intro c hc
  have h := List.head?_dropWhile_not q cs
  rwa [hc] at h

theorem takeWhile_of_stops (hrun : ∀ c ∈ run, q c = true) (h : Stops q rest) :
    (run ++ rest).takeWhile q = run := by
  rw [List.takeWhile_append_of_pos hrun]
  cases rest with
  | nil => simp
  | cons c rest => simp [h c rfl]

theorem dropWhile_of_stops (hrun : ∀ c ∈ run, q c = true) (h : Stops q rest) :
    (run ++ rest).dropWhile q = rest := by
  rw [List.dropWhile_append_of_pos hrun]
  cases rest with
  | nil => rfl
  | cons c rest => simp [h c rfl]

/-- A text starts with one run of a class only. -/
theorem append_inj_of_stops {run' rest' : List Char} (heq : run ++ rest = run' ++ rest')
    (hrun : ∀ c ∈ run, q c = true) (hrun' : ∀ c ∈ run', q c = true) (h : Stops q rest)
    (h' : Stops q rest') : run = run' ∧ rest = rest' := by
  have htake := congrArg (List.takeWhile q) heq
  have hdrop := congrArg (List.dropWhile q) heq
  rw [takeWhile_of_stops hrun h, takeWhile_of_stops hrun' h'] at htake
  rw [dropWhile_of_stops hrun h, dropWhile_of_stops hrun' h'] at hdrop
  exact ⟨htake, hdrop⟩

end Stops

theorem allBlank_iff {cs : List Char} : allBlank cs = true ↔ ∀ c ∈ cs, isBlank c = true :=
  List.all_eq_true

theorem not_mem_of_allBlank {cs : List Char} {c : Char} (h : allBlank cs = true)
    (hc : isBlank c = false) : c ∉ cs := by
  intro hmem
  rw [allBlank_iff.mp h c hmem] at hc
  exact Bool.noConfusion hc

theorem exists_of_inRanges {ranges : List (Nat × Nat)} {n : Nat} (h : inRanges ranges n = true) :
    ∃ r ∈ ranges, r.1 ≤ n ∧ n ≤ r.2 := by
  induction ranges with
  | nil => simp [inRanges] at h
  | cons r ranges ih =>
    rw [inRanges] at h
    split at h
    · simp at h
    · rename_i hlo
      rcases Bool.or_eq_true_iff.mp h with hhi | h
      · exact ⟨r, List.mem_cons_self .., by omega, of_decide_eq_true hhi⟩
      · obtain ⟨r', hr', hn⟩ := ih h
        exact ⟨r', List.mem_cons_of_mem _ hr', hn⟩

/-- No blank can stand in a name. -/
theorem isWordChar_of_isBlank {c : Char} (h : isBlank c = true) : isWordChar c = false := by
  have hnone : ∀ r ∈ blankRanges, ∀ k < r.2 + 1 - r.1, isWordChar (Char.ofNat (r.1 + k)) = false := by
    decide +kernel
  obtain ⟨r, hr, hlo, hhi⟩ := exists_of_inRanges h
  have hc := hnone r hr (c.toNat - r.1) (by omega)
  rwa [Nat.add_sub_cancel' hlo, Char.ofNat_toNat] at hc

theorem isBlank_of_isWordChar {c : Char} (h : isWordChar c = true) : isBlank c = false := by
  cases hblank : isBlank c with
  | false => rfl
  | true =>
    rw [isWordChar_of_isBlank hblank] at h
    exact Bool.noConfusion h

end Text

namespace Declaration

/-! ## The pieces -/

/-- A word is a name: it is not empty, and all its characters are word characters. -/
def IsName (name : List Char) : Prop := name ≠ [] ∧ ∀ c ∈ name, isWordChar c = true

theorem IsName.stops_isBlank {name : List Char} (h : IsName name) (rest : List Char) :
    Stops isBlank (name ++ rest) :=
  stops_append h.1 (fun c hc => isBlank_of_isWordChar (h.2 c hc)) rest

/-- A run of at least one blank. -/
def IsGap (cs : List Char) : Prop := cs ≠ [] ∧ allBlank cs = true

theorem stops_isWordChar_of_allBlank {cs rest : List Char} (h : allBlank cs = true)
    (hrest : Stops isWordChar rest) : Stops isWordChar (cs ++ rest) := by
  cases cs with
  | nil => exact hrest
  | cons c cs =>
    exact stops_cons (isWordChar_of_isBlank (allBlank_iff.mp h c (List.mem_cons_self ..))) _

theorem literal_eq_some {w : String} {cs rest : List Char} :
    literal w cs = some rest ↔ cs = w.toList ++ rest := by
  rw [literal, List.isPrefixOf?_eq_some_iff_append_eq]
  exact eq_comm

theorem blanks_eq_iff {cs rest : List Char} :
    blanks cs = rest ↔ ∃ room, cs = room ++ rest ∧ allBlank room = true ∧ Stops isBlank rest := by
  constructor
  · rintro rfl
    exact ⟨cs.takeWhile isBlank, List.takeWhile_append_dropWhile.symm, List.all_takeWhile,
      stops_dropWhile _ _⟩
  · rintro ⟨room, rfl, hroom, hstops⟩
    exact dropWhile_of_stops (allBlank_iff.mp hroom) hstops

theorem someBlanks_eq_some_iff {cs rest : List Char} :
    someBlanks cs = some rest ↔ ∃ gap, cs = gap ++ rest ∧ IsGap gap ∧ Stops isBlank rest := by
  cases cs with
  | nil =>
    simp only [someBlanks, reduceCtorEq, false_iff, not_exists, not_and]
    intro gap hgap hne
    exact absurd (List.append_eq_nil_iff.mp hgap.symm).1 hne.1
  | cons c cs =>
    by_cases hc : isBlank c = true
    · rw [someBlanks, if_pos hc, Option.some.injEq, blanks_eq_iff]
      constructor
      · rintro ⟨room, rfl, hroom, hstops⟩
        exact ⟨c :: room, rfl, ⟨by simp, by simpa [allBlank, hc] using hroom⟩, hstops⟩
      · rintro ⟨gap, hgap, ⟨hne, hblank⟩, hstops⟩
        obtain ⟨d, room, rfl⟩ := List.exists_cons_of_ne_nil hne
        obtain ⟨rfl, rfl⟩ := List.cons.inj hgap
        exact ⟨room, rfl, by simpa [allBlank, hc] using hblank, hstops⟩
    · rw [someBlanks, if_neg hc]
      simp only [reduceCtorEq, false_iff, not_exists, not_and]
      intro gap hgap hblank
      obtain ⟨d, room, rfl⟩ := List.exists_cons_of_ne_nil hblank.1
      obtain ⟨rfl, -⟩ := List.cons.inj hgap
      exact absurd (allBlank_iff.mp hblank.2 c (List.mem_cons_self ..)) hc

theorem word_eq_some_iff {cs name rest : List Char} :
    word cs = some (name, rest) ↔ cs = name ++ rest ∧ IsName name ∧ Stops isWordChar rest := by
  unfold word wordRun
  dsimp only
  constructor
  · intro h
    split at h
    · simp at h
    · rename_i hne
      obtain ⟨rfl, rfl⟩ := Prod.mk.inj (Option.some.inj h)
      exact ⟨List.takeWhile_append_dropWhile.symm,
        ⟨by simpa using hne, fun c hc => List.all_eq_true.mp List.all_takeWhile c hc⟩,
        stops_dropWhile _ _⟩
  · rintro ⟨rfl, hname, hstops⟩
    rw [takeWhile_of_stops hname.2 hstops, dropWhile_of_stops hname.2 hstops]
    simp [hname.1]

/-- The word for a shape. -/
def shapeText : Shape → List Char
  | .read => "Select".toList
  | .write => "Insert".toList

@[simp] theorem shapeText_read : shapeText .read = "Select".toList := rfl
@[simp] theorem shapeText_write : shapeText .write = "Insert".toList := rfl

theorem shapeWord_eq_some_iff {cs rest : List Char} {shape : Shape} :
    shapeWord cs = some (shape, rest) ↔ cs = shapeText shape ++ rest := by
  unfold shapeWord
  cases hselect : literal "Select" cs with
  | some ds =>
    obtain rfl := literal_eq_some.mp hselect
    cases shape <;> simp
  | none =>
    have hne : ∀ ds, cs ≠ "Select".toList ++ ds := by
      intro ds h
      rw [literal_eq_some.mpr h] at hselect
      simp at hselect
    cases hinsert : literal "Insert" cs with
    | some ds =>
      obtain rfl := literal_eq_some.mp hinsert
      cases shape <;> simp
    | none =>
      have hne' : ∀ ds, cs ≠ "Insert".toList ++ ds := by
        intro ds h
        rw [literal_eq_some.mpr h] at hinsert
        simp at hinsert
      cases shape with
      | read => simpa using hne rest
      | write => simpa using hne' rest

/-- The name of a table builder. -/
def IsBuilder (run : List Char) : Prop :=
  "Table".toList <:+ run ∧ ∀ c ∈ run, isWordChar c = true

theorem builderName_eq_some_iff {cs rest : List Char} : builderName cs = some rest ↔
    ∃ run, cs = run ++ rest ∧ IsBuilder run ∧ Stops isWordChar rest := by
  unfold builderName wordRun
  dsimp only
  constructor
  · intro h
    split at h
    · rename_i hsuffix
      obtain rfl := Option.some.inj h
      exact ⟨_, List.takeWhile_append_dropWhile.symm, ⟨List.isSuffixOf_iff_suffix.mp hsuffix,
        fun c hc => List.all_eq_true.mp List.all_takeWhile c hc⟩, stops_dropWhile _ _⟩
    · simp at h
  · rintro ⟨run, rfl, ⟨hsuffix, hrun⟩, hstops⟩
    rw [takeWhile_of_stops hrun hstops, dropWhile_of_stops hrun hstops,
      if_pos (List.isSuffixOf_iff_suffix.mpr hsuffix)]

theorem eq_of_isQuote {c : Char} (h : isQuote c = true) : c = '"' ∨ c = '\'' := by
  simpa [isQuote] using h

theorem isBlank_of_isQuote {c : Char} (h : isQuote c = true) : isBlank c = false := by
  rcases eq_of_isQuote h with rfl | rfl <;> decide

/-- A character that may stand between the quotes around a table's name. -/
def isInside (c : Char) : Bool := !isQuote c && c != '\n'

theorem quotedName_eq_some_iff {cs name rest : List Char} : quotedName cs = some (name, rest) ↔
    ∃ q q', isQuote q = true ∧ isQuote q' = true ∧ (∀ c ∈ name, isInside c = true) ∧
      cs = q :: (name ++ q' :: rest) := by
  constructor
  · intro h
    cases cs with
    | nil => simp [quotedName] at h
    | cons c cs =>
      rw [quotedName] at h
      split at h
      · simp at h
      · rename_i d ds hdrop
        split at h
        · rename_i hquotes
          obtain ⟨rfl, rfl⟩ := Prod.mk.inj (Option.some.inj h)
          obtain ⟨hc, hd⟩ := Bool.and_eq_true_iff.mp hquotes
          refine ⟨c, d, hc, hd, fun e he => List.all_eq_true.mp List.all_takeWhile e he, ?_⟩
          rw [← hdrop, List.takeWhile_append_dropWhile]
        · simp at h
  · rintro ⟨q, q', hq, hq', hname, rfl⟩
    have hstops : Stops isInside (q' :: rest) := stops_cons (by simp [isInside, hq']) rest
    have htake : (name ++ q' :: rest).takeWhile (fun d => !isQuote d && d != '\n') = name :=
      takeWhile_of_stops hname hstops
    have hdrop : (name ++ q' :: rest).dropWhile (fun d => !isQuote d && d != '\n') = q' :: rest :=
      dropWhile_of_stops hname hstops
    simp [quotedName, htake, hdrop, hq, hq']

/-! ## The forms -/

/-- The start that the two forms share: `export`, a keyword, the name that is declared, and the sign
after it, with blanks between them. -/
def IsOpening (keyword : String) (name text : List Char) : Prop :=
  ∃ gap₁ gap₂ room₁ room₂, IsGap gap₁ ∧ IsGap gap₂ ∧ allBlank room₁ = true ∧ allBlank room₂ = true ∧
    IsName name ∧ text = "export".toList ++ (gap₁ ++ (keyword.toList ++ (gap₂ ++ (name ++ (room₁ ++
      ("=".toList ++ room₂))))))

/-- An alias statement up to the last of its words. -/
def IsAliasCore (st : AliasStatement) (text : List Char) : Prop :=
  ∃ opening gap room₁ room₂, IsOpening "type" st.name opening ∧ IsGap gap ∧ allBlank room₁ = true ∧
    allBlank room₂ = true ∧ IsName st.referenced ∧ text = opening ++ ("typeof".toList ++ (gap ++
      (st.referenced ++ (room₁ ++ (".".toList ++ (room₂ ++ ("$infer".toList ++
        shapeText st.shape)))))))

/-- What an alias statement ends with before `rest`: a semicolon, or nothing when none comes. -/
def IsAliasEnd (stop rest : List Char) : Prop :=
  stop = [';'] ∨ stop = [] ∧ Stops isBlank rest ∧ rest.head? ≠ some ';'

/-- The header of an entity. -/
def IsHeader (header : EntityHeader) (text : List Char) : Prop :=
  ∃ opening builder room₁ room₂ q q' room₃ room₄, IsOpening "const" header.name opening ∧
    IsBuilder builder ∧ allBlank room₁ = true ∧ allBlank room₂ = true ∧ isQuote q = true ∧
    isQuote q' = true ∧ allBlank room₃ = true ∧ allBlank room₄ = true ∧
    (∀ c ∈ header.physicalName, isInside c = true) ∧ header.lead = opening ++ (builder ++ room₁) ∧
    text = header.lead ++ '(' :: (room₂ ++ q :: (header.physicalName ++ q' :: (room₃ ++ ',' :: (room₄ ++
      ['\x7b']))))

theorem stops_literal {q : Char → Bool} {w : String} (h : ∃ c ∈ w.toList.head?, q c = false)
    (rest : List Char) : Stops q (w.toList ++ rest) := by
  obtain ⟨c, hc, hq⟩ := h
  intro d hd
  rw [List.head?_append, hc] at hd
  rwa [← Option.some.inj hd]

/-- The pieces that both patterns begin with take an opening. -/
theorem opening_iff {keyword : String} (hkeyword : ∃ c ∈ keyword.toList.head?, isBlank c = false)
    {cs name rest : List Char} :
    (∃ c₁ c₂ c₃ c₄ c₅ c₆, literal "export" cs = some c₁ ∧ someBlanks c₁ = some c₂ ∧
      literal keyword c₂ = some c₃ ∧ someBlanks c₃ = some c₄ ∧ word c₄ = some (name, c₅) ∧
      literal "=" (blanks c₅) = some c₆ ∧ blanks c₆ = rest) ↔
    ∃ text, cs = text ++ rest ∧ IsOpening keyword name text ∧ Stops isBlank rest := by
  constructor
  · rintro ⟨c₁, c₂, c₃, c₄, c₅, c₆, h₁, h₂, h₃, h₄, h₅, h₆, h₇⟩
    obtain ⟨gap₁, rfl, hgap₁, -⟩ := someBlanks_eq_some_iff.mp h₂
    obtain ⟨gap₂, rfl, hgap₂, -⟩ := someBlanks_eq_some_iff.mp h₄
    obtain ⟨rfl, hname, -⟩ := word_eq_some_iff.mp h₅
    obtain ⟨room₁, hroom₁, hblank₁, -⟩ := blanks_eq_iff.mp (rfl : blanks c₅ = blanks c₅)
    obtain ⟨room₂, hroom₂, hblank₂, hstops⟩ := blanks_eq_iff.mp h₇
    refine ⟨_, ?_, ⟨gap₁, gap₂, room₁, room₂, hgap₁, hgap₂, hblank₁, hblank₂, hname, rfl⟩, hstops⟩
    rw [literal_eq_some.mp h₁, literal_eq_some.mp h₃, hroom₁, literal_eq_some.mp h₆, hroom₂]
    simp only [List.append_assoc]
  · rintro ⟨text, rfl, ⟨gap₁, gap₂, room₁, room₂, hgap₁, hgap₂, hblank₁, hblank₂, hname, rfl⟩, hstops⟩
    simp only [List.append_assoc]
    have hsign : ∀ q : Char → Bool, q '=' = false → Stops q ("=".toList ++ (room₂ ++ rest)) :=
      fun q hq => stops_literal ⟨'=', rfl, hq⟩ _
    refine ⟨_, _, _, _, _, room₂ ++ rest, literal_eq_some.mpr rfl,
      someBlanks_eq_some_iff.mpr ⟨gap₁, rfl, hgap₁, stops_literal hkeyword _⟩, literal_eq_some.mpr rfl,
      someBlanks_eq_some_iff.mpr ⟨gap₂, rfl, hgap₂, hname.stops_isBlank _⟩,
      word_eq_some_iff.mpr ⟨rfl, hname, ?_⟩, ?_, ?_⟩
    · exact stops_isWordChar_of_allBlank hblank₁ (hsign _ (by decide))
    · rw [blanks_eq_iff.mpr ⟨room₁, rfl, hblank₁, hsign _ (by decide)⟩]
      exact literal_eq_some.mpr rfl
    · exact blanks_eq_iff.mpr ⟨room₂, rfl, hblank₂, hstops⟩

/-- What is left of a text after its blanks and a semicolon behind them, if there is one. -/
theorem exists_aliasEnd (cs : List Char) : ∃ room stop,
    cs = room ++ (stop ++ (literal ";" (blanks cs)).getD (blanks cs)) ∧ allBlank room = true ∧
      IsAliasEnd stop ((literal ";" (blanks cs)).getD (blanks cs)) := by
  obtain ⟨room, hroom, hblank, hstops⟩ := blanks_eq_iff.mp (rfl : blanks cs = blanks cs)
  generalize blanks cs = ds at hroom hstops
  subst hroom
  cases hstop : literal ";" ds with
  | some rest =>
    obtain rfl := literal_eq_some.mp hstop
    exact ⟨room, [';'], rfl, hblank, Or.inl rfl⟩
  | none =>
    refine ⟨room, [], rfl, hblank, Or.inr ⟨rfl, hstops, fun hhead => ?_⟩⟩
    obtain ⟨rest, rfl⟩ := List.head?_eq_some_iff.mp hhead
    have hsome : literal ";" (';' :: rest) = some rest := literal_eq_some.mpr rfl
    rw [hsome] at hstop
    simp at hstop

theorem aliasEnd_eq {room stop rest : List Char} (hroom : allBlank room = true)
    (hstop : IsAliasEnd stop rest) : blanks (room ++ (stop ++ rest)) = stop ++ rest ∧
      (literal ";" (stop ++ rest)).getD (stop ++ rest) = rest := by
  rcases hstop with rfl | ⟨rfl, hstops, hhead⟩
  · refine ⟨blanks_eq_iff.mpr ⟨room, rfl, hroom, stops_cons (by decide) rest⟩, ?_⟩
    have hsome : literal ";" ([';'] ++ rest) = some rest := literal_eq_some.mpr rfl
    rw [hsome, Option.getD_some]
  · refine ⟨blanks_eq_iff.mpr ⟨room, rfl, hroom, hstops⟩, ?_⟩
    cases hsome : literal ";" rest with
    | none => rw [List.nil_append, hsome, Option.getD_none]
    | some ds =>
      rw [literal_eq_some.mp hsome] at hhead
      exact absurd rfl hhead

theorem exists_head?_type : ∃ c ∈ "type".toList.head?, isBlank c = false :=
  ⟨'t', rfl, by decide⟩

/-- What an alias statement takes. -/
theorem exists_of_aliasStatement {cs rest : List Char} {st : AliasStatement}
    (h : aliasStatement cs = some (st, rest)) : ∃ core room stop, IsAliasCore st core ∧
      allBlank room = true ∧ IsAliasEnd stop rest ∧ cs = core ++ (room ++ (stop ++ rest)) := by
  simp only [aliasStatement, Option.bind_eq_bind, Option.bind_eq_some_iff, Option.some.injEq,
    Prod.mk.injEq, Prod.exists] at h
  obtain ⟨c₁, h₁, c₂, h₂, c₃, h₃, c₄, h₄, name, c₅, h₅, c₆, h₆, c₇, h₇, c₈, h₈, referenced, c₉, h₉,
    c₁₀, h₁₀, c₁₁, h₁₁, shape, c₁₂, h₁₂, rfl, hrest⟩ := h
  obtain ⟨opening, hcs, hopening, -⟩ := (opening_iff exists_head?_type).mp
    ⟨c₁, c₂, c₃, c₄, c₅, c₆, h₁, h₂, h₃, h₄, h₅, h₆, rfl⟩
  obtain ⟨gap, hgapEq, hgap, -⟩ := someBlanks_eq_some_iff.mp h₈
  obtain ⟨hword, hreferenced, -⟩ := word_eq_some_iff.mp h₉
  obtain ⟨room₁, hroom₁, hblank₁, -⟩ := blanks_eq_iff.mp (rfl : blanks c₉ = blanks c₉)
  obtain ⟨room₂, hroom₂, hblank₂, -⟩ := blanks_eq_iff.mp (rfl : blanks c₁₀ = blanks c₁₀)
  obtain ⟨room, stop, hend, hblank, hstop⟩ := exists_aliasEnd c₁₂
  rw [hrest] at hend hstop
  refine ⟨_, room, stop, ⟨opening, gap, room₁, room₂, hopening, hgap, hblank₁, hblank₂,
    hreferenced, rfl⟩, hblank, hstop, ?_⟩
  rw [hcs, literal_eq_some.mp h₇, hgapEq, hword, hroom₁, literal_eq_some.mp h₁₀, hroom₂,
    literal_eq_some.mp h₁₁, shapeWord_eq_some_iff.mp h₁₂, hend]
  simp only [List.append_assoc]

/-- An alias statement is met where its text stands. -/
theorem aliasStatement_of_isAliasCore {core room stop rest : List Char} {st : AliasStatement}
    (hcore : IsAliasCore st core) (hblank : allBlank room = true) (hstop : IsAliasEnd stop rest) :
    aliasStatement (core ++ (room ++ (stop ++ rest))) = some (st, rest) := by
  obtain ⟨opening, gap, room₁, room₂, hopening, hgap, hblank₁, hblank₂, hreferenced, rfl⟩ := hcore
  simp only [List.append_assoc]
  obtain ⟨hend, hrest⟩ := aliasEnd_eq hblank hstop
  generalize hlast : room ++ (stop ++ rest) = last at hend
  generalize hshape : shapeText st.shape ++ last = d₅
  generalize hinfer : "$infer".toList ++ d₅ = d₄
  have h₁₁ : blanks (room₂ ++ d₄) = d₄ := blanks_eq_iff.mpr
    ⟨room₂, rfl, hblank₂, hinfer ▸ stops_literal ⟨'$', rfl, by decide⟩ _⟩
  generalize hdot : ".".toList ++ (room₂ ++ d₄) = d₃
  have hdotStops : ∀ q : Char → Bool, q '.' = false → Stops q d₃ :=
    fun q hq => hdot ▸ stops_literal ⟨'.', rfl, hq⟩ _
  have h₁₀ : blanks (room₁ ++ d₃) = d₃ :=
    blanks_eq_iff.mpr ⟨room₁, rfl, hblank₁, hdotStops _ (by decide)⟩
  have h₉ : word (st.referenced ++ (room₁ ++ d₃)) = some (st.referenced, room₁ ++ d₃) :=
    word_eq_some_iff.mpr ⟨rfl, hreferenced,
      stops_isWordChar_of_allBlank hblank₁ (hdotStops _ (by decide))⟩
  generalize hreferencedEq : st.referenced ++ (room₁ ++ d₃) = d₂ at h₉
  have h₈ : someBlanks (gap ++ d₂) = some d₂ := someBlanks_eq_some_iff.mpr
    ⟨gap, rfl, hgap, hreferencedEq ▸ hreferenced.stops_isBlank _⟩
  generalize htypeof : "typeof".toList ++ (gap ++ d₂) = d₁
  obtain ⟨c₁, c₂, c₃, c₄, c₅, c₆, h₁, h₂, h₃, h₄, h₅, h₆, h₇⟩ := (opening_iff exists_head?_type).mpr
    ⟨opening, (rfl : opening ++ d₁ = _), hopening, htypeof ▸ stops_literal ⟨'t', rfl, by decide⟩ _⟩
  simp only [aliasStatement, Option.bind_eq_bind, h₁, h₂, h₃, h₄, h₅, h₆, h₇, h₈, h₉, h₁₀, h₁₁, hend,
    literal_eq_some.mpr htypeof.symm, literal_eq_some.mpr hdot.symm, literal_eq_some.mpr hinfer.symm,
    shapeWord_eq_some_iff.mpr hshape.symm, hrest, Option.bind_some]

/-- An alias statement is met before any text that starts with the same character. -/
theorem aliasStatement_congr {text rest rest' : List Char} {st : AliasStatement}
    (h : aliasStatement (text ++ rest) = some (st, rest)) (hhead : rest'.head? = rest.head?) :
    aliasStatement (text ++ rest') = some (st, rest') := by
  obtain ⟨core, room, stop, hcore, hroom, hstop, heq⟩ := exists_of_aliasStatement h
  simp only [← List.append_assoc] at heq
  obtain rfl := List.append_cancel_right heq
  have hstop' : IsAliasEnd stop rest' := by
    rcases hstop with hstop | ⟨hstop, hstops, hne⟩
    · exact Or.inl hstop
    · refine Or.inr ⟨hstop, ?_, by rwa [hhead]⟩
      unfold Stops at hstops ⊢
      rwa [hhead]
  simpa only [List.append_assoc] using aliasStatement_of_isAliasCore hcore hroom hstop'

/-- An alias statement is met before a text in which no semicolon comes first, and takes some blanks
more. -/
theorem aliasStatement_extend {text rest rest' : List Char} {st : AliasStatement}
    (h : aliasStatement (text ++ rest) = some (st, rest)) (hrest : (blanks rest').head? ≠ some ';') :
    ∃ room more, rest' = room ++ more ∧ allBlank room = true ∧
      aliasStatement (text ++ (room ++ more)) = some (st, more) := by
  obtain ⟨core, room, stop, hcore, hroom, hstop, heq⟩ := exists_of_aliasStatement h
  simp only [← List.append_assoc] at heq
  obtain rfl := List.append_cancel_right heq
  rcases hstop with rfl | ⟨rfl, -⟩
  · refine ⟨[], rest', rfl, rfl, ?_⟩
    have hstop : IsAliasEnd [';'] rest' := Or.inl rfl
    simpa only [List.append_assoc, List.nil_append] using aliasStatement_of_isAliasCore hcore hroom hstop
  · obtain ⟨more, hmore, hblank, hstops⟩ := blanks_eq_iff.mp (rfl : blanks rest' = blanks rest')
    have hstop : IsAliasEnd [] (blanks rest') := Or.inr ⟨rfl, hstops, hrest⟩
    have hroom' : allBlank (room ++ more) = true := by
      unfold allBlank at hroom hblank ⊢
      rw [List.all_append, hroom, hblank, Bool.and_self]
    refine ⟨more, blanks rest', hmore, hblank, ?_⟩
    simpa only [List.append_assoc, List.append_nil, List.nil_append] using
      aliasStatement_of_isAliasCore hcore hroom' hstop

theorem exists_head?_const : ∃ c ∈ "const".toList.head?, isBlank c = false :=
  ⟨'c', rfl, by decide⟩

/-- What the header of an entity takes. -/
theorem exists_of_entityHeader {cs rest : List Char} {header : EntityHeader}
    (h : entityHeader cs = some (header, rest)) : ∃ text, cs = text ++ rest ∧ IsHeader header text := by
  simp only [entityHeader, Option.bind_eq_bind, Option.bind_eq_some_iff, Option.some.injEq,
    Prod.mk.injEq, Prod.exists] at h
  obtain ⟨c₁, h₁, c₂, h₂, c₃, h₃, c₄, h₄, name, c₅, h₅, c₆, h₆, c₇, h₇, c₈, h₈, physicalName, c₉, h₉,
    c₁₀, h₁₀, c₁₁, h₁₁, rfl, rfl⟩ := h
  obtain ⟨opening, hcs, hopening, -⟩ := (opening_iff exists_head?_const).mp
    ⟨c₁, c₂, c₃, c₄, c₅, c₆, h₁, h₂, h₃, h₄, h₅, h₆, rfl⟩
  obtain ⟨builder, hbuilderEq, hbuilder, -⟩ := builderName_eq_some_iff.mp h₇
  obtain ⟨room₁, hroom₁, hblank₁, -⟩ := blanks_eq_iff.mp (rfl : blanks c₇ = blanks c₇)
  obtain ⟨room₂, hroom₂, hblank₂, -⟩ := blanks_eq_iff.mp (rfl : blanks c₈ = blanks c₈)
  obtain ⟨q, q', hq, hq', hinside, hquoted⟩ := quotedName_eq_some_iff.mp h₉
  obtain ⟨room₃, hroom₃, hblank₃, -⟩ := blanks_eq_iff.mp (rfl : blanks c₉ = blanks c₉)
  obtain ⟨room₄, hroom₄, hblank₄, -⟩ := blanks_eq_iff.mp (rfl : blanks c₁₀ = blanks c₁₀)
  generalize blanks c₇ = call at hroom₁ h₈ ⊢
  have hlead : cs = (opening ++ (builder ++ room₁)) ++ call := by
    rw [hcs, hbuilderEq, hroom₁]
    simp only [List.append_assoc]
  have htaken : taken cs call = opening ++ (builder ++ room₁) := by
    rw [hlead, taken_append]
  refine ⟨_, ?_, ⟨opening, builder, room₁, room₂, q, q', room₃, room₄, hopening, hbuilder, hblank₁,
    hblank₂, hq, hq', hblank₃, hblank₄, hinside, htaken, rfl⟩⟩
  rw [htaken, hlead, literal_eq_some.mp h₈, hroom₂, hquoted, hroom₃, literal_eq_some.mp h₁₀, hroom₄,
    literal_eq_some.mp h₁₁]
  simp

/-- The header of an entity is met where its text stands, whatever comes after it. -/
theorem entityHeader_of_isHeader {text : List Char} {header : EntityHeader} (h : IsHeader header text)
    (rest : List Char) : entityHeader (text ++ rest) = some (header, rest) := by
  obtain ⟨opening, builder, room₁, room₂, q, q', room₃, room₄, hopening, hbuilder, hblank₁, hblank₂, hq,
    hq', hblank₃, hblank₄, hinside, hlead, rfl⟩ := h
  have hcons : ∀ {room : List Char} (c : Char) (ds : List Char), allBlank room = true →
      isBlank c = false → blanks (room ++ c :: ds) = c :: ds :=
    fun c ds hroom hc => blanks_eq_iff.mpr ⟨_, rfl, hroom, stops_cons hc ds⟩
  have hparts : header.lead ++ '(' :: (room₂ ++ q :: (header.physicalName ++ q' :: (room₃ ++ ',' ::
      (room₄ ++ ['\x7b'])))) ++ rest = opening ++ (builder ++ (room₁ ++ '(' :: (room₂ ++ q ::
        (header.physicalName ++ q' :: (room₃ ++ ',' :: (room₄ ++ '\x7b' :: rest)))))) := by
    rw [hlead]
    simp
  rw [hparts]
  -- from the last piece to the first: what each leaves starts with a character that no blank or word has
  have h₁₁ := hcons '\x7b' rest hblank₄ (by decide)
  generalize hbrace : room₄ ++ '\x7b' :: rest = d₄ at h₁₁
  have h₁₀ := hcons ',' d₄ hblank₃ (by decide)
  generalize hcomma : room₃ ++ ',' :: d₄ = d₃ at h₁₀
  have hquoted : quotedName (q :: (header.physicalName ++ q' :: d₃)) = some (header.physicalName, d₃) :=
    quotedName_eq_some_iff.mpr ⟨q, q', hq, hq', hinside, rfl⟩
  have h₉ := hcons q (header.physicalName ++ q' :: d₃) hblank₂ (isBlank_of_isQuote hq)
  generalize hopened : room₂ ++ q :: (header.physicalName ++ q' :: d₃) = d₂ at h₉
  have h₈ := hcons '(' d₂ hblank₁ (by decide)
  generalize hcall : room₁ ++ '(' :: d₂ = d₁ at h₈
  have hbuilderStops : Stops isWordChar d₁ :=
    hcall ▸ stops_isWordChar_of_allBlank hblank₁ (stops_cons (by decide) _)
  have h₇' : builderName (builder ++ d₁) = some d₁ :=
    builderName_eq_some_iff.mpr ⟨builder, rfl, hbuilder, hbuilderStops⟩
  have hstops : Stops isBlank (builder ++ d₁) := by
    refine stops_append ?_ (fun c hc => ?_) d₁
    · rintro rfl
      exact absurd hbuilder.1 (by decide)
    · exact isBlank_of_isWordChar (hbuilder.2 c hc)
  generalize hbuilderEq : builder ++ d₁ = d₀ at h₇' hstops
  obtain ⟨c₁, c₂, c₃, c₄, c₅, c₆, h₁, h₂, h₃, h₄, h₅, h₆, h₇⟩ := (opening_iff exists_head?_const).mpr
    ⟨opening, (rfl : opening ++ d₀ = _), hopening, hstops⟩
  have htaken : taken (opening ++ d₀) ('(' :: d₂) = header.lead := by
    rw [← hbuilderEq, ← hcall, hlead, ← List.append_assoc, ← List.append_assoc, taken_append,
      List.append_assoc]
  have hlit : ∀ (w : String) ds, literal w (w.toList ++ ds) = some ds :=
    fun w ds => literal_eq_some.mpr rfl
  have hparen : literal "(" ('(' :: d₂) = some d₂ := hlit "(" d₂
  have hcommaLit : literal "," (',' :: d₄) = some d₄ := hlit "," d₄
  have hbraceLit : literal "\x7b" ('\x7b' :: rest) = some rest := hlit "\x7b" rest
  simp only [entityHeader, Option.bind_eq_bind, h₁, h₂, h₃, h₄, h₅, h₆, h₇, h₇', h₈, h₉, h₁₀, h₁₁,
    hparen, hquoted, hcommaLit, hbraceLit, htaken, Option.bind_some]

end Declaration

end SchemaModules
