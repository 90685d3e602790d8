import SchemaModules.Proofs.Lines
import SchemaModules.Proofs.Spans

/-!
# Proofs: the comment lines of an entity

The comment of an entity is read off the lines above it. A line counts only if it starts where every
earlier symbol has ended, and of these lines the comment lines at the end are carried. The search for
entities keeps one byte only, behind which the lines count, and so what is shown first is that this byte
stands for all earlier symbols.
-/

namespace SchemaModules

open Text Lexical Declaration

/-- Whether there are only blanks on the line. -/
def Text.Line.isBlank (l : Line) : Bool := allBlank l.text

/-- Whether the line is a comment and nothing else. -/
def Text.Line.isComment (l : Line) : Bool := isCommentLine l.text

/-- Whether the line starts before one of the spans has ended. -/
def Text.Line.startsBeforeEnd (spans : List Span) (l : Line) : Bool :=
  spans.any fun s => l.start < s.stop

theorem Text.Line.startsBeforeEnd_iff {spans : List Span} {l : Line} :
    l.startsBeforeEnd spans = true ↔ ∃ s ∈ spans, l.start < s.stop := by
  simp [Line.startsBeforeEnd]

namespace Catalog

/-- The spans of the symbols that start before byte `offset`. -/
def earlierSpans (c : Catalog) (offset : Nat) : List Span :=
  (c.symbols.filter fun s => s.offset < offset).map Symbol.span

/-- The lines above byte `offset` that start where every earlier symbol has ended. The line of that byte
counts as the last one, as far as the byte. -/
def openLines (c : Catalog) (source : List Char) (offset : Nat) : List Line :=
  (linesFrom 0 (takeBytes offset source)).dropWhile (Line.startsBeforeEnd (c.earlierSpans offset))

/-- The comment lines at the end of a list, behind which there are only blank lines. -/
def commentRun (ls : List Line) : List Line := trailingRun Line.isBlank Line.isComment ls

/-- The comment lines that are carried by the entity at byte `offset`. -/
def carriedLines (c : Catalog) (source : List Char) (offset : Nat) : List Line :=
  commentRun (c.openLines source offset)

/-- Lines as a comment, each without the blanks at its end. No lines are no comment. -/
def joined (ls : List Line) : Option String :=
  if ls.isEmpty then none
  else some (String.ofList (List.intercalate ['\n'] (ls.map fun l => trimEnd l.text)))

theorem mem_earlierSpans {c : Catalog} {offset : Nat} {span : Span} :
    span ∈ c.earlierSpans offset ↔ ∃ s ∈ c.symbols, s.offset < offset ∧ s.span = span := by
  simp [earlierSpans, and_assoc]

theorem le_start_of_mem_openLines {c : Catalog} {source : List Char} {offset : Nat} {l : Line}
    (hl : l ∈ c.openLines source offset) {span : Span} (hspan : span ∈ c.earlierSpans offset) :
    span.stop ≤ l.start := by
  have hopen : ¬ l.startsBeforeEnd (c.earlierSpans offset) = true := by
    rw [Bool.not_eq_true]
    refine eq_false_of_mem_dropWhile (pairwise_linesFrom 0 (takeBytes offset source)) ?_ hl
    intro a b hab ha
    rw [← Bool.not_eq_true, Line.startsBeforeEnd_iff] at ha ⊢
    rintro ⟨s, hs, hlt⟩
    rw [Line.stop] at hab
    exact ha ⟨s, hs, by omega⟩
  rw [Line.startsBeforeEnd_iff] at hopen
  exact Nat.not_lt.mp fun hlt => hopen ⟨span, hspan, hlt⟩

/-! ## The lines behind a byte -/

theorem afterLine_of_not_mem {cs : List Char} (h : '\n' ∉ cs) : afterLine cs = none := by
  induction cs with
  | nil => rfl
  | cons c cs ih =>
    rw [List.mem_cons, not_or] at h
    rw [afterLine, if_neg (Ne.symm h.1), ih h.2]

theorem afterLine_append_cons {xs : List Char} (h : '\n' ∉ xs) (ys : List Char) :
    afterLine (xs ++ '\n' :: ys) = some ys := by
  induction xs with
  | nil => rfl
  | cons c xs ih =>
    rw [List.mem_cons, not_or] at h
    rw [List.cons_append, afterLine, if_neg (Ne.symm h.1), ih h.2]

theorem trailingComments_eq (pos : Nat) (cs : List Char) :
    trailingComments cs = (commentRun (linesFrom pos cs)).map Line.text := by
  have hmap : trailingRun allBlank isCommentLine ((linesFrom pos cs).map Line.text) =
      (commentRun (linesFrom pos cs)).map Line.text := trailingRun_map Line.text _
  rw [← hmap, map_text_linesFrom]
  simp [trailingComments, trailingRun, List.rdropWhile, List.rtakeWhile]

theorem map_banner?_eq_joined {source lower : List Char} {boundary start : Nat}
    (h : gapAbove source boundary start = some lower) (pos : Nat) :
    (banner? source boundary start).map String.ofList = joined (commentRun (linesFrom pos lower)) := by
  rw [banner?, h, joined]
  dsimp only
  rw [trailingComments_eq pos, List.map_map, List.isEmpty_map]
  split
  · rfl
  · rfl

theorem dropWhile_linesFrom {boundary pos : Nat} (h : boundary ≤ pos) (cs : List Char) :
    (linesFrom pos cs).dropWhile (fun l => l.start < boundary) = linesFrom pos cs := by
  cases hlines : linesFrom pos cs with
  | nil => rfl
  | cons l ls =>
    have hmem : l ∈ linesFrom pos cs := by
      rw [hlines]
      exact List.mem_cons_self ..
    have hle := (bounds_of_mem_linesFrom hmem).1
    rw [List.dropWhile_cons_of_neg (by simp; omega)]

/-- Lines that all start before the boundary do not count, and those of what comes after them do. -/
theorem dropWhile_linesFrom_append {boundary : Nat} {xs : List Char} (ys : List Char)
    (hstart : ∀ l ∈ linesFrom 0 xs, l.start < boundary) (hle : boundary ≤ byteLength xs + 1) :
    (linesFrom 0 (xs ++ '\n' :: ys)).dropWhile (fun l => l.start < boundary) =
      linesFrom (byteLength xs + 1) ys := by
  rw [linesFrom_append_cons, List.dropWhile_append_of_pos (by simpa using hstart),
    dropWhile_linesFrom (by omega), Nat.zero_add]

/-- The comment lines above a declaration are looked for where the boundary has been passed. -/
theorem banner?_eq (head gap back : List Char) :
    (banner? (head ++ (gap ++ back)) (byteLength head) (byteLength head + byteLength gap)).map
        String.ofList =
      joined (commentRun ((linesFrom 0 (head ++ gap)).dropWhile fun l => l.start < byteLength head)) := by
  have hslice : slice (head ++ (gap ++ back)) (byteLength head) (byteLength head + byteLength gap) = gap :=
    slice_append rfl rfl
  by_cases hnil : head = []
  · subst hnil
    rw [List.nil_append gap, byteLength_nil, dropWhile_linesFrom (Nat.le_refl 0)]
    refine map_banner?_eq_joined ?_ 0
    rw [gapAbove, if_pos (Or.inl rfl)]
    exact congrArg some hslice
  have hpos : byteLength head ≠ 0 := fun hzero => hnil (byteLength_eq_zero.mp hzero)
  by_cases hlast : head.getLast? = some '\n'
  · -- the boundary is at the start of a line
    obtain ⟨upper, rfl⟩ := List.getLast?_eq_some_iff.mp hlast
    have hlen : byteLength (upper ++ ['\n']) = byteLength upper + 1 := byteLength_append ..
    have hlines : (linesFrom 0 ((upper ++ ['\n']) ++ gap)).dropWhile
        (fun l => l.start < byteLength (upper ++ ['\n'])) = linesFrom (byteLength upper + 1) gap := by
      rw [hlen, List.append_assoc, List.singleton_append]
      refine dropWhile_linesFrom_append gap ?_ (Nat.le_refl _)
      intro l hl
      have hstop := (bounds_of_mem_linesFrom hl).2
      rw [Line.stop] at hstop
      omega
    rw [hlines]
    refine map_banner?_eq_joined ?_ _
    rw [gapAbove, hslice, takeBytes_append, if_pos (Or.inr hlast)]
  · have hgap : gapAbove (head ++ (gap ++ back)) (byteLength head)
        (byteLength head + byteLength gap) = afterLine gap := by
      rw [gapAbove, hslice, takeBytes_append, if_neg (by simp [hpos, hlast])]
    rcases not_mem_or_exists_feed gap with hfeed | ⟨xs, ys, rfl, hfeed⟩
    · have hnone : (linesFrom 0 (head ++ gap)).dropWhile (fun l => l.start < byteLength head) = [] := by
        refine List.dropWhile_eq_nil_iff.mpr ?_
        intro l hl
        exact decide_eq_true (start_lt_of_not_mem hnil hlast hfeed hl)
      rw [banner?, hgap, afterLine_of_not_mem hfeed, hnone]
      rfl
    · -- the line of the boundary goes on to the first line feed behind it
      have hlines : (linesFrom 0 (head ++ (xs ++ '\n' :: ys))).dropWhile
          (fun l => l.start < byteLength head) = linesFrom (byteLength (head ++ xs) + 1) ys := by
        rw [← List.append_assoc]
        refine dropWhile_linesFrom_append ys ?_ (by rw [byteLength_append]; omega)
        intro l hl
        exact start_lt_of_not_mem hnil hlast hfeed hl
      rw [hlines]
      refine map_banner?_eq_joined ?_ _
      rw [hgap, afterLine_append_cons hfeed]

/-! ## The byte behind which lines count -/

theorem lt_bannerBoundary_iff {spans : List Span} {consumed start pos : Nat} :
    pos < bannerBoundary spans consumed start ↔
      pos < consumed ∨ ∃ s ∈ spans, s.stop ≤ start ∧ pos < s.stop := by
  unfold bannerBoundary
  induction spans generalizing consumed with
  | nil => simp
  | cons s spans ih =>
    rw [List.foldl_cons, ih]
    by_cases hs : s.stop ≤ start
    · have hmax : pos < max consumed s.stop ↔ pos < consumed ∨ pos < s.stop := by omega
      simp [hs, hmax, or_assoc]
    · simp [hs]

/-- A bound that stands for the ends of spans is reached by one of them. -/
theorem exists_stop_eq {spans : List Span} {boundary : Nat}
    (h : ∀ pos, pos < boundary ↔ ∃ s ∈ spans, pos < s.stop) :
    boundary = 0 ∨ ∃ s ∈ spans, s.stop = boundary := by
  by_cases hzero : boundary = 0
  · exact Or.inl hzero
  · obtain ⟨s, hs, hlt⟩ := (h (boundary - 1)).mp (by omega)
    have hle : ¬ boundary < s.stop := fun hover => Nat.lt_irrefl _ ((h boundary).mpr ⟨s, hs, hover⟩)
    exact Or.inr ⟨s, hs, by omega⟩

section

variable {source origin : String} {c : Catalog}

theorem mem_aliasSpans_iff (h : extract source origin = .ok c) {span : Span} :
    span ∈ aliasSpans source.toList ↔ ∃ a ∈ c.aliases, (Symbol.derived a).span = span := by
  have hspan : ∀ (o : Occurrence AliasStatement) (resolved : Bool),
      (Symbol.derived { aliasOf o with resolved := resolved }).span = o.span := by
    intro o resolved
    simp [Symbol.span, aliasOf, Occurrence.span]
  constructor
  · intro hmem
    obtain ⟨o, ho, rfl⟩ := List.mem_map.mp hmem
    exact ⟨_, (mem_aliases_iff h).mpr ⟨o, ho, rfl⟩, hspan o _⟩
  · rintro ⟨a, ha, rfl⟩
    obtain ⟨o, ho, rfl⟩ := (mem_aliases_iff h).mp ha
    rw [hspan]
    exact List.mem_map_of_mem ho

theorem start_lt_stop_of_mem (h : extract source origin = .ok c) {s : Symbol} (hs : s ∈ c.symbols) :
    s.span.start < s.span.stop := by
  obtain ⟨-, -, -, -, hne, -⟩ := liveAt_of_extract h hs
  have hpos := Nat.pos_of_ne_zero fun hzero => hne (byteLength_eq_zero.mp hzero)
  show s.offset < s.offset + byteLength s.bodyText.toList
  omega

/-- A symbol that starts before an entity ends before it, too. -/
theorem stop_le_of_lt (h : extract source origin = .ok c) {e : Entity} (he : e ∈ c.entities) {s : Symbol}
    (hs : s ∈ c.symbols) (hlt : s.offset < e.offset) : s.span.stop ≤ e.offset := by
  cases s with
  | entity e' => exact stop_le_of_kind_eq h hs (entity_mem_symbols.mpr he) rfl hlt
  | derived a =>
    obtain ⟨header, boundary, stop, d, hheader, -, rfl, -⟩ := exists_declares_of_mem h he
    have hspan := (mem_aliasSpans_iff h).mpr ⟨a, derived_mem_symbols.mp hs, rfl⟩
    by_contra hle
    exact not_covered_of_header hheader ⟨_, hspan, Nat.le_of_lt hlt, Nat.lt_of_not_le hle⟩

/-- The entities before a declaration have ended where the last of them ends. -/
theorem lt_lastStop_iff (h : extract source origin = .ok c)
    {before after : List (Occurrence EntityHeader × Nat)} {f : Occurrence EntityHeader × Nat}
    (hfound : Collects (workingCopy source.toList) (inertSpans source.toList) 0
      (occurrences entityHeader (workingCopy source.toList)) (before ++ f :: after))
    (hdeclared : List.Forall₂ (DeclaredBy source.toList) (before ++ f :: after) c.entities) {pos : Nat} :
    pos < lastStop 0 before ↔
      ∃ e ∈ c.entities, e.offset < f.1.offset ∧ pos < (Symbol.entity e).span.stop := by
  have hsorted : (before ++ f :: after).Pairwise fun f g => f.1.offset < g.1.offset := by
    have hfirsts := (pairwise_offset_occurrences consumes_entityHeader _).sublist hfound.map_fst_sublist
    rwa [List.pairwise_map] at hfirsts
  obtain ⟨hfront, hback, hlt⟩ := List.pairwise_append.mp hsorted
  have hentity : ∀ g ∈ before, ∃ e ∈ c.entities, e.offset = g.1.offset ∧
      (Symbol.entity e).span.stop = g.2 := by
    intro g hg
    have hmem := List.mem_append_left (f :: after) hg
    obtain ⟨e, he, hdeclares⟩ := exists_right_of_forall₂ hdeclared hmem
    exact ⟨e, he, stop_eq_of_declaredBy hfound hmem hdeclares⟩
  have hbefore : ∀ e ∈ c.entities, e.offset < f.1.offset → ∃ g ∈ before, e.offset = g.1.offset ∧
      (Symbol.entity e).span.stop = g.2 := by
    intro e he hearlier
    obtain ⟨g, hg, hdeclares⟩ := exists_left_of_forall₂ hdeclared he
    have hends := stop_eq_of_declaredBy hfound hg hdeclares
    rcases List.mem_append.mp hg with hg | hg
    · exact ⟨g, hg, hends⟩
    · rcases List.mem_cons.mp hg with rfl | hg
      · omega
      · have := List.rel_of_pairwise_cons hback hg
        omega
  rcases List.eq_nil_or_concat before with rfl | ⟨front, g, rfl⟩
  · constructor
    · intro hpos
      exact absurd hpos (Nat.not_lt_zero _)
    · rintro ⟨e, he, hearlier, -⟩
      obtain ⟨g, hg, -⟩ := hbefore e he hearlier
      exact absurd hg List.not_mem_nil
  · rw [List.concat_eq_append] at *
    have hlast : lastStop 0 (front ++ [g]) = g.2 := by
      rw [lastStop, List.foldl_append]
      rfl
    obtain ⟨e, he, hoff, hstop⟩ := hentity g (by simp)
    rw [hlast, ← hstop]
    constructor
    · intro hpos
      have hearlier := hlt g (by simp) f (List.mem_cons_self ..)
      exact ⟨e, he, by omega, hpos⟩
    · rintro ⟨e', he', hearlier, hpos⟩
      obtain ⟨g', hg', hoff', hstop'⟩ := hbefore e' he' hearlier
      rcases List.mem_append.mp hg' with hg' | hg'
      · -- an entity before the last one has ended where that one starts
        have hle := (List.pairwise_append.mp hfront).2.2 g' hg' g (by simp)
        have hends : (Symbol.entity e').span.stop ≤ e.offset :=
          stop_le_of_lt h he (entity_mem_symbols.mpr he') (by simp only [Symbol.offset]; omega)
        have hspan : e.offset ≤ (Symbol.entity e).span.stop := Nat.le_add_right ..
        omega
      · obtain rfl := List.mem_singleton.mp hg'
        omega

/-- The comment of an entity is looked for behind every earlier symbol. -/
theorem exists_boundary (h : extract source origin = .ok c) {e : Entity} (he : e ∈ c.entities) :
    ∃ boundary, e.leadingComment = (banner? source.toList boundary e.offset).map String.ofList ∧
      ∀ pos, pos < boundary ↔ ∃ span ∈ c.earlierSpans e.offset, pos < span.stop := by
  obtain ⟨entities, hcollect, -, -, hc⟩ := extract_eq_ok h
  obtain ⟨found, hfound, hdeclared, hsplit⟩ := exists_found_of_collectEntities hcollect
  have hentities : c.entities = entities := by rw [hc, entities_ofLists]
  obtain ⟨before, f, after, rfl, hentity⟩ := hsplit e (hentities ▸ he)
  rw [← hentities] at hdeclared
  have hoff : f.1.offset = e.offset := by
    rw [hentity]
    rfl
  have hcomment := congrArg Entity.leadingComment hentity
  rw [entityOf, hoff] at hcomment
  refine ⟨_, hcomment, ?_⟩
  intro pos
  rw [lt_bannerBoundary_iff, lt_lastStop_iff h hfound hdeclared, hoff]
  constructor
  · rintro (⟨e', he', hearlier, hpos⟩ | ⟨span, hspan, hle, hpos⟩)
    · exact ⟨_, mem_earlierSpans.mpr ⟨_, entity_mem_symbols.mpr he', hearlier, rfl⟩, hpos⟩
    · obtain ⟨a, ha, rfl⟩ := (mem_aliasSpans_iff h).mp hspan
      have hsymbol := derived_mem_symbols.mpr ha
      have hlt : a.offset < e.offset := Nat.lt_of_lt_of_le (start_lt_stop_of_mem h hsymbol) hle
      exact ⟨_, mem_earlierSpans.mpr ⟨_, hsymbol, hlt, rfl⟩, hpos⟩
  · rintro ⟨span, hspan, hpos⟩
    obtain ⟨s, hs, hearlier, rfl⟩ := mem_earlierSpans.mp hspan
    cases s with
    | entity e' => exact Or.inl ⟨e', entity_mem_symbols.mp hs, hearlier, hpos⟩
    | derived a =>
      have halias := (mem_aliasSpans_iff h).mpr ⟨a, derived_mem_symbols.mp hs, rfl⟩
      exact Or.inr ⟨_, halias, stop_le_of_lt h he hs hearlier, hpos⟩

/-- The entity's text stands behind everything above it. -/
theorem exists_above (h : extract source origin = .ok c) {s : Symbol} (hs : s ∈ c.symbols) :
    ∃ after, source.toList = takeBytes s.offset source.toList ++ (s.bodyText.toList ++ after) ∧
      s.offset = byteLength (takeBytes s.offset source.toList) := by
  obtain ⟨before, after, hsource, hoff, -⟩ := liveAt_of_extract h hs
  have htake : takeBytes s.offset source.toList = before := by
    rw [hsource, hoff, takeBytes_append]
  rw [htake]
  exact ⟨after, hsource, hoff⟩

/-- The text of an earlier symbol stands above the entity. -/
theorem exists_takeBytes_eq (h : extract source origin = .ok c) {e : Entity} (he : e ∈ c.entities)
    {s : Symbol} (hs : s ∈ c.symbols) (hlt : s.offset < e.offset) :
    ∃ gap, takeBytes e.offset source.toList =
      takeBytes s.offset source.toList ++ (s.bodyText.toList ++ gap) := by
  obtain ⟨after, hsource, hoff⟩ := exists_above h (entity_mem_symbols.mpr he)
  obtain ⟨after', hsource', hoff'⟩ := exists_above h hs
  rw [Symbol.offset_entity] at hsource hoff
  have hle : byteLength (takeBytes s.offset source.toList ++ s.bodyText.toList) ≤
      byteLength (takeBytes e.offset source.toList) := by
    rw [byteLength_append, ← hoff', ← hoff]
    exact stop_le_of_lt h he hs hlt
  rw [← List.append_assoc] at hsource'
  obtain ⟨gap, hgap, -⟩ := exists_between_of_byteLength_le (hsource'.symm.trans hsource) hle
  exact ⟨gap, by rw [hgap, List.append_assoc]⟩

/-- The comment of an entity is made of the lines that it carries. -/
theorem leadingComment_eq_joined (h : extract source origin = .ok c) {e : Entity} (he : e ∈ c.entities) :
    e.leadingComment = joined (c.carriedLines source.toList e.offset) := by
  obtain ⟨boundary, hcomment, hboundary⟩ := exists_boundary h he
  have hopen : c.openLines source.toList e.offset =
      (linesFrom 0 (takeBytes e.offset source.toList)).dropWhile fun l => l.start < boundary := by
    rw [openLines]
    congr 1
    funext l
    rw [Bool.eq_iff_iff, Line.startsBeforeEnd_iff, decide_eq_true_eq, hboundary l.start]
  obtain ⟨head, gap, habove, hhead⟩ : ∃ head gap,
      takeBytes e.offset source.toList = head ++ gap ∧ boundary = byteLength head := by
    rcases exists_stop_eq hboundary with rfl | ⟨span, hspan, rfl⟩
    · exact ⟨[], _, rfl, rfl⟩
    · obtain ⟨s, hs, hlt, rfl⟩ := mem_earlierSpans.mp hspan
      obtain ⟨gap, hgap⟩ := exists_takeBytes_eq h he hs hlt
      obtain ⟨-, -, hoff⟩ := exists_above h hs
      refine ⟨takeBytes s.offset source.toList ++ s.bodyText.toList, gap, ?_, ?_⟩
      · rw [hgap, List.append_assoc]
      · rw [byteLength_append, ← hoff]
        rfl
  obtain ⟨after, hsource, hoff⟩ := exists_above h (entity_mem_symbols.mpr he)
  rw [Symbol.offset_entity] at hsource hoff
  rw [hcomment, carriedLines, hopen, habove, hhead, ← banner?_eq head gap, ← byteLength_append,
    ← habove, ← hoff, ← List.append_assoc, ← habove, ← hsource]

end

end Catalog

end SchemaModules
