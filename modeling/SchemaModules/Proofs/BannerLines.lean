import SchemaModules.Proofs.Banners

/-!
# Proofs: banners and the lines of the source

The banner of an entity that starts its line is the run of comment lines above that line, up to the first
line with a character of an earlier symbol. A blank character counts here: the text of an alias without
a semicolon goes on over the blanks behind it, perhaps to the next line, and then the first comment line
is not carried although nothing but blanks stands on it before the comment.
-/

namespace SchemaModules

open Text Lexical Declaration

/-- Whether one of the characters of the line that count stands in the span. -/
def Text.Line.touches (counts : Char → Bool) (l : Line) (span : Span) : Bool :=
  (Catalog.located l.start l.text).any fun p => counts p.2 && (span.start ≤ p.1 && p.1 < span.stop)

namespace Catalog

/-- Whether byte `offset` has only blanks before it on its line: the last line of the text before it is
blank. -/
def startsLine (source : List Char) (offset : Nat) : Bool :=
  (lines (takeBytes offset source)).getLast?.all allBlank

/-- The lines of a source above the line of byte `offset`. -/
def linesAbove (source : List Char) (offset : Nat) : List Line :=
  (linesFrom 0 source).takeWhile fun l => l.stop < offset

/-- Whether the line is a comment, and no character that counts stands in one of the spans. -/
def isBannerLine (counts : Char → Bool) (spans : List Span) (l : Line) : Bool :=
  l.isComment && !spans.any (l.touches counts)

/-- The longest run of such comment lines directly above the line of byte `offset`, or above blank lines
there. The spans are those of the earlier symbols. -/
def bannerLines (counts : Char → Bool) (c : Catalog) (source : List Char) (offset : Nat) : List Line :=
  trailingRun Line.isBlank (isBannerLine counts (c.earlierSpans offset)) (linesAbove source offset)

/-! ## Lines and spans -/

section

variable {counts : Char → Bool} {l : Line} {span : Span}

theorem touches_of_mem {front back : List Char} {c : Char} (htext : l.text = front ++ c :: back)
    (hcounts : counts c = true) (hstart : span.start ≤ l.start + byteLength front)
    (hstop : l.start + byteLength front < span.stop) : l.touches counts span = true := by
  refine List.any_eq_true.mpr ⟨(l.start + byteLength front, c), ?_, ?_⟩
  · rw [htext, located_append]
    exact List.mem_append_right _ (List.mem_cons_self ..)
  · simp [hcounts, hstart, hstop]

theorem exists_of_touches (h : l.touches counts span = true) :
    ∃ p ∈ located l.start l.text, counts p.2 = true ∧ span.start ≤ p.1 ∧ p.1 < span.stop := by
  simpa [Line.touches, and_assoc] using h

theorem touches_of_start_lt (hne : l.text ≠ []) (hstart : span.start ≤ l.start)
    (hstop : l.start < span.stop) : l.touches (fun _ => true) span = true := by
  obtain ⟨c, back, htext⟩ := List.exists_cons_of_ne_nil hne
  rw [← List.nil_append (c :: back)] at htext
  exact touches_of_mem htext rfl hstart hstop

theorem not_touches_of_stop_le (h : span.stop ≤ l.start) : l.touches counts span = false := by
  refine List.any_eq_false.mpr ?_
  intro p hp
  have hle := (le_of_mem_located hp).1
  simp only [Bool.and_eq_true, decide_eq_true_eq, not_and]
  omega

end

/-- Where byte `offset` starts its line, that line has only blanks above the byte. -/
theorem exists_linesFrom_takeBytes {source : List Char} {offset : Nat}
    (hoff : offset = byteLength (takeBytes offset source)) (h : startsLine source offset = true) :
    ∃ own, linesFrom 0 (takeBytes offset source) = linesAbove source offset ++ [own] ∧
      own.isBlank = true := by
  obtain ⟨front, room, habove, hfront, hroom⟩ := exists_last_line (takeBytes offset source)
  have hsource := takeBytes_append_dropBytes offset source
  rw [startsLine] at h
  rw [habove] at hoff hsource h ⊢
  suffices hlines : ∃ start, linesFrom 0 (front ++ room) = linesAbove source offset ++ [⟨start, room⟩] by
    obtain ⟨start, hlines⟩ := hlines
    refine ⟨⟨start, room⟩, hlines, ?_⟩
    rw [← map_text_linesFrom 0, hlines, List.map_append, List.map_singleton, List.getLast?_concat] at h
    exact h
  generalize dropBytes offset source = back at hsource
  rw [linesAbove, ← hsource, List.append_assoc, hoff]
  rcases List.eq_nil_or_concat front with rfl | ⟨above, c, rfl⟩
  · refine ⟨0, ?_⟩
    have hnone := takeWhile_linesFrom_append hroom 0 back
    rw [Nat.zero_add] at hnone
    rw [List.nil_append, List.nil_append, hnone, linesFrom_of_not_mem hroom]
    rfl
  · obtain rfl : c = '\n' := hfront c (by simp)
    refine ⟨byteLength above + 1, ?_⟩
    have hlen : byteLength (above ++ ['\n'] ++ room) = byteLength above + 1 + byteLength room := by
      simp only [byteLength_append]
      rfl
    have hends : ∀ l ∈ linesFrom 0 above, l.stop < byteLength above + 1 + byteLength room := by
      intro l hl
      have hle := (bounds_of_mem_linesFrom hl).2
      omega
    rw [List.concat_eq_append, hlen, List.append_assoc, List.append_assoc, List.singleton_append,
      List.singleton_append, linesFrom_append_cons, linesFrom_append_cons, Nat.zero_add,
      linesFrom_of_not_mem hroom, List.takeWhile_append_of_pos (by simpa using hends),
      takeWhile_linesFrom_append hroom, List.append_nil]

section

variable {source origin : String} {c : Catalog}

/-- The text of a symbol starts with the first letter of a word. -/
theorem head?_bodyText (h : extract source origin = .ok c) {s : Symbol} (hs : s ∈ c.symbols) :
    s.bodyText.toList.head? = some 'e' := by
  cases s with
  | entity e =>
    obtain ⟨header, boundary, stop, d, -, hd, -, hbody⟩ :=
      exists_declares_of_mem h (entity_mem_symbols.mp hs)
    rw [Symbol.bodyText_entity, hbody]
    exact hd.head?_body
  | derived a =>
    obtain ⟨o, ho, rfl⟩ := (mem_aliases_iff h).mp (derived_mem_symbols.mp hs)
    obtain ⟨-, tail, -, -, htext, -⟩ := exists_of_mem_liveAliases ho
    rw [Symbol.bodyText_derived, aliasOf, String.toList_ofList, htext]
    rfl

/-- The lines above an entity that do not count end with those on which some earlier symbol stands, from
the line of its first letter on. -/
theorem exists_openLines_eq (h : extract source origin = .ok c) {e : Entity} (he : e ∈ c.entities) :
    ∃ upper, linesFrom 0 (takeBytes e.offset source.toList) =
        upper ++ c.openLines source.toList e.offset ∧
      (upper = [] ∨ ∃ span ∈ c.earlierSpans e.offset, ∃ before l after, upper = before ++ l :: after ∧
        l.isBlank = false ∧ l.touches (fun _ => true) span = true ∧
        ∀ l' ∈ after, span.start ≤ l'.start ∧ l'.start < span.stop) := by
  obtain ⟨boundary, -, hboundary⟩ := exists_boundary h he
  refine ⟨_, List.takeWhile_append_dropWhile.symm, ?_⟩
  rcases exists_stop_eq hboundary with rfl | ⟨span, hspan, rfl⟩
  · refine Or.inl (List.eq_nil_iff_forall_not_mem.mpr ?_)
    intro l hl
    have hsome := Line.startsBeforeEnd_iff.mp (List.mem_takeWhile_imp hl)
    exact Nat.not_lt_zero _ ((hboundary l.start).mpr hsome)
  · refine Or.inr ⟨span, hspan, ?_⟩
    obtain ⟨s, hs, hlt, rfl⟩ := mem_earlierSpans.mp hspan
    obtain ⟨gap, hgap⟩ := exists_takeBytes_eq h he hs hlt
    obtain ⟨-, -, hoff⟩ := exists_above h hs
    obtain ⟨tail, htail⟩ := List.head?_eq_some_iff.mp (head?_bodyText h hs)
    rw [htail, List.cons_append] at hgap
    obtain ⟨before, l, after, front, back, hlines, htext, hstart⟩ :=
      exists_line_of_append_cons (c := 'e') (by decide) 0 (takeBytes s.offset source.toList) (tail ++ gap)
    rw [Nat.zero_add, ← hoff] at hstart
    have hsorted := pairwise_linesFrom 0 (takeBytes e.offset source.toList)
    rw [hgap, hlines] at hsorted ⊢
    obtain ⟨-, hlater, hearlier⟩ := List.pairwise_append.mp hsorted
    have hin : l.start + byteLength front < s.span.stop := hstart ▸ start_lt_stop_of_mem h hs
    have hearly : ∀ l' : Line, l'.start ≤ l.start →
        l'.startsBeforeEnd (c.earlierSpans e.offset) = true := by
      intro l' hle
      exact Line.startsBeforeEnd_iff.mpr ⟨s.span, hspan, by omega⟩
    have hbefore : ∀ l' ∈ before, l'.startsBeforeEnd (c.earlierSpans e.offset) = true := by
      intro l' hl'
      have hends : l'.start + byteLength l'.text < l.start := hearlier l' hl' l (List.mem_cons_self ..)
      exact hearly l' (by omega)
    rw [List.takeWhile_append_of_pos hbefore, List.takeWhile_cons_of_pos (hearly l (Nat.le_refl _))]
    refine ⟨before, l, _, rfl, ?_, touches_of_mem htext rfl (Nat.le_of_eq hstart.symm) hin, ?_⟩
    · rw [Line.isBlank, htext]
      exact List.all_eq_false.mpr ⟨'e', by simp, by decide⟩
    · intro l' hl'
      have hsome := Line.startsBeforeEnd_iff.mp (List.mem_takeWhile_imp hl')
      have hends : l.start + byteLength l.text < l'.start :=
        List.rel_of_pairwise_cons hlater ((List.takeWhile_sublist _).subset hl')
      rw [htext, byteLength_append] at hends
      have hspan : s.span.start = s.offset := rfl
      exact ⟨by omega, (hboundary l'.start).mpr hsome⟩

/-- The run ends below every line on which an earlier symbol stands, so it is what the entity carries. -/
theorem bannerLines_eq_carriedLines (h : extract source origin = .ok c) {e : Entity}
    (he : e ∈ c.entities) (hline : startsLine source.toList e.offset = true) :
    c.bannerLines (fun _ => true) source.toList e.offset = c.carriedLines source.toList e.offset := by
  obtain ⟨-, -, hoff⟩ := exists_above h (entity_mem_symbols.mpr he)
  rw [Symbol.offset_entity] at hoff
  obtain ⟨own, hown, hblank⟩ := exists_linesFrom_takeBytes hoff hline
  obtain ⟨upper, hupper, hbarrier⟩ := exists_openLines_eq h he
  have hopen : trailingRun Line.isBlank (isBannerLine (fun _ => true) (c.earlierSpans e.offset))
      (c.openLines source.toList e.offset) = c.carriedLines source.toList e.offset := by
    refine trailingRun_eq_of_forall_mem ?_ ?_
    · intro l _ hgood
      exact (Bool.and_eq_true_iff.mp hgood).1
    · intro l hl
      obtain ⟨hmem, hcomment⟩ := mem_of_mem_trailingRun hl
      rw [isBannerLine, hcomment, Bool.true_and, Bool.not_eq_true', List.any_eq_false]
      intro span hspan
      rw [not_touches_of_stop_le (le_start_of_mem_openLines hmem hspan)]
      exact Bool.false_ne_true
  rw [bannerLines, ← trailingRun_concat_of_skip hblank, ← hown, hupper]
  rcases hbarrier with rfl | ⟨span, hspan, before, l, after, rfl, hnonblank, htouches, hafter⟩
  · exact hopen
  · have htouched : ∀ l' : Line, l'.touches (fun _ => true) span = true →
        isBannerLine (fun _ => true) (c.earlierSpans e.offset) l' = false := by
      intro l' hl'
      rw [isBannerLine, List.any_eq_true.mpr ⟨span, hspan, hl'⟩, Bool.not_true, Bool.and_false]
    rw [trailingRun_append_of_barrier hnonblank, hopen]
    refine List.forall_mem_cons.mpr ⟨htouched l htouches, ?_⟩
    intro l' hl'
    obtain ⟨hstart, hstop⟩ := hafter l' hl'
    by_cases hnil : l'.text = []
    · rw [isBannerLine, Line.isComment, hnil]
      rfl
    · exact htouched l' (touches_of_start_lt hnil hstart hstop)

/-- The comment of an entity that starts its line is the run of comment lines above the line on which no
character of an earlier symbol stands. It is the run on which no character but blanks does, if no line of
that run has a blank of an earlier symbol. -/
theorem leadingComment_eq_bannerLines (h : extract source origin = .ok c) {e : Entity}
    (he : e ∈ c.entities) (hline : startsLine source.toList e.offset = true) :
    e.leadingComment = joined (c.bannerLines (fun _ => true) source.toList e.offset) ∧
      ((∀ l ∈ c.bannerLines (fun d => !isBlank d) source.toList e.offset,
          ∀ span ∈ c.earlierSpans e.offset, l.touches (fun _ => true) span = false) →
        e.leadingComment = joined (c.bannerLines (fun d => !isBlank d) source.toList e.offset)) := by
  have hcomment : e.leadingComment = joined (c.bannerLines (fun _ => true) source.toList e.offset) := by
    rw [bannerLines_eq_carriedLines h he hline]
    exact leadingComment_eq_joined h he
  refine ⟨hcomment, ?_⟩
  intro huntouched
  rw [hcomment]
  refine congrArg joined (trailingRun_eq_of_forall_mem ?_ ?_)
  · intro l _ hgood
    obtain ⟨hcomment, hfree⟩ := Bool.and_eq_true_iff.mp hgood
    rw [Bool.not_eq_true', List.any_eq_false] at hfree
    rw [isBannerLine, hcomment, Bool.true_and, Bool.not_eq_true', List.any_eq_false]
    intro span hspan htouches
    obtain ⟨p, hp, -, hin⟩ := exists_of_touches htouches
    exact hfree span hspan (List.any_eq_true.mpr ⟨p, hp, by simpa using hin⟩)
  · intro l hl
    obtain ⟨-, hgood⟩ := mem_of_mem_trailingRun hl
    rw [isBannerLine, (Bool.and_eq_true_iff.mp hgood).1, Bool.true_and, Bool.not_eq_true',
      List.any_eq_false]
    intro span hspan
    rw [huntouched l hl span hspan]
    exact Bool.false_ne_true

/-- A table below two comment lines, a blank line between them and the table, and an alias above. -/
def bannerSource : String :=
  "export type A = typeof a.$inferSelect;\n// one  \n  // two\n \n  " ++
    "export const a = pgTable(\"a\", \x7b\x7d);\n"

theorem bannerSource_leadingComment_eq :
    ∃ c e, extract bannerSource "sample" = .ok c ∧ e ∈ c.entities ∧
      startsLine bannerSource.toList e.offset = true ∧ e.leadingComment = some "// one\n  // two" ∧
      e.leadingComment = joined (c.bannerLines (fun _ => true) bannerSource.toList e.offset) ∧
      e.leadingComment = joined (c.bannerLines (fun d => !isBlank d) bannerSource.toList e.offset) := by
  have hsome : ((extract bannerSource "sample").toOption.map fun c => c.entities.map fun (e : Entity) =>
      (startsLine bannerSource.toList e.offset, e.leadingComment,
        decide (∀ l ∈ c.bannerLines (fun d => !isBlank d) bannerSource.toList e.offset,
          ∀ span ∈ c.earlierSpans e.offset, l.touches (fun _ => true) span = false))) =
      some [(true, some "// one\n  // two", true)] := by
    decide +kernel
  obtain ⟨c, hc, hentities⟩ := exists_eq_ok_of_map_toOption hsome
  obtain ⟨e, rest, he, hvalues, -⟩ := List.map_eq_cons_iff.mp hentities
  simp only [Prod.mk.injEq, decide_eq_true_eq] at hvalues
  obtain ⟨hline, hcomment, huntouched⟩ := hvalues
  have hmem : e ∈ c.entities := by simp [he]
  obtain ⟨hall, hnonblank⟩ := leadingComment_eq_bannerLines hc hmem hline
  exact ⟨c, e, hc, hmem, hline, hcomment, hall, hnonblank huntouched⟩

/-- An alias without a semicolon, and behind it a comment line that is indented. -/
def swallowedSource : String :=
  "export type A = typeof a.$inferSelect\n  // banner\nexport const a = pgTable(\"a\", \x7b\x7d);\n"

/-- Where the blanks that an alias takes reach to a comment, the comment is not carried. -/
theorem not_all_banners_carried :
    ¬ ∀ (source origin : String) (c : Catalog), extract source origin = .ok c → ∀ e ∈ c.entities,
      startsLine source.toList e.offset = true →
        e.leadingComment = joined (c.bannerLines (fun d => !isBlank d) source.toList e.offset) := by
  intro hall
  have hsome : ((extract swallowedSource "sample").toOption.map fun c =>
      c.entities.map fun (e : Entity) => (startsLine swallowedSource.toList e.offset,
        decide (e.leadingComment =
          joined (c.bannerLines (fun d => !isBlank d) swallowedSource.toList e.offset)))) =
      some [(true, false)] := by
    decide +kernel
  obtain ⟨c, hc, hentities⟩ := exists_eq_ok_of_map_toOption hsome
  obtain ⟨e, rest, he, hvalues, -⟩ := List.map_eq_cons_iff.mp hentities
  simp only [Prod.mk.injEq, decide_eq_false_iff_not] at hvalues
  obtain ⟨hline, hne⟩ := hvalues
  exact hne (hall swallowedSource "sample" c hc e (by simp [he]) hline)

end

end Catalog

end SchemaModules
