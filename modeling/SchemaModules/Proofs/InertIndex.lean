import SchemaModules.Proofs.Bytes
import SchemaModules.Proofs.InertSpans

/-!
# Proofs: the inert spans index what the lexer leaves out

The lexer steps on a character and reports whether it is code, or swallows it as the second of a pair. The
inert spans of a text are an index of this: non-empty stretches of whole characters, one after the other,
and a look-up finds the characters on which the lexer reports no code and those that it swallows. What the
look-up relies on is that the ends of the spans are in order.
-/

namespace SchemaModules.Lexical

open Text

/-! ## Steps -/

namespace Lexer

/-- What the lexer reports when it steps on `c`: whether `c` is code. Out of code nothing is, and in code
everything but a quote, the slash that starts a comment and the brace that ends a hole. -/
def reports (lx : Lexer) (c : Char) (next : Option Char) : Bool :=
  match lx.mode with
  | .code =>
    if c = '"' ∨ c = '\'' ∨ c = backtick then false
    else if c = '/' ∧ (next = some '/' ∨ next = some '*') then false
    else if c = '}' then lx.holes.head? != some 0
    else true
  | _ => false

/-- The pairs of characters that the lexer reads as one. -/
inductive Pairs (lx : Lexer) : Char → Char → Prop
  /-- In a string or template literal a backslash escapes any character. -/
  | escape {quote : Char} (c : Char) (mode : lx.mode = .quoted quote) : Pairs lx '\\' c
  /-- In code a slash and a star open a comment. -/
  | openComment (mode : lx.mode = .code) : Pairs lx '/' '*'
  /-- In such a comment a star and a slash close it. -/
  | closeComment (mode : lx.mode = .blockComment) : Pairs lx '*' '/'
  /-- In a template literal a dollar sign and a brace open a hole. -/
  | openHole (mode : lx.mode = .quoted backtick) : Pairs lx '$' '{'

variable {lx : Lexer} {c d : Char} {next : Option Char}

theorem paired_openBrace (lx : Lexer) : lx.openBrace.paired = lx.paired := by
  unfold openBrace
  split <;> rfl

theorem paired_closeBrace (lx : Lexer) : lx.closeBrace.paired = lx.paired := by
  unfold closeBrace
  split <;> rfl

theorem mode_openBrace (lx : Lexer) : lx.openBrace.mode = lx.mode := by
  unfold openBrace
  split <;> rfl

theorem pairs_iff : lx.Pairs c d ↔
    (∃ quote, lx.mode = .quoted quote ∧ (c = '\\' ∨ quote = backtick ∧ c = '$' ∧ d = '{')) ∨
      lx.mode = .code ∧ c = '/' ∧ d = '*' ∨ lx.mode = .blockComment ∧ c = '*' ∧ d = '/' := by
  constructor
  · rintro (⟨_, hmode⟩ | hmode | hmode | hmode) <;> simp [hmode]
  · rintro (⟨quote, hmode, rfl | ⟨rfl, rfl, rfl⟩⟩ | ⟨hmode, rfl, rfl⟩ | ⟨hmode, rfl, rfl⟩)
    · exact .escape d hmode
    · exact .openHole hmode
    · exact .openComment hmode
    · exact .closeComment hmode

theorem paired_stepCode (hpaired : lx.paired = false) :
    (lx.stepCode c next).paired = decide (c = '/' ∧ next = some '*') := by
  unfold stepCode
  split
  · rename_i hquote
    have hslash : c ≠ '/' := by rcases hquote with rfl | rfl | rfl <;> decide
    simp [hpaired, hslash]
  · split
    · rename_i hline
      simp [hpaired, hline.2]
    · split
      · rename_i hblock
        simp [hblock]
      · rename_i hblock
        rw [decide_eq_false hblock]
        split
        · rw [paired_openBrace, hpaired]
        · split
          · rw [paired_closeBrace, hpaired]
          · exact hpaired

theorem paired_stepQuoted (hpaired : lx.paired = false) (quote : Char) :
    (lx.stepQuoted quote c next).paired =
      decide (c = '\\' ∨ quote = backtick ∧ c = '$' ∧ next = some '{') := by
  unfold stepQuoted
  split
  · rename_i hescape
    simp [hescape]
  · rename_i hescape
    split
    · rename_i hhole
      simp [hhole]
    · rename_i hhole
      rw [decide_eq_false (not_or.mpr ⟨hescape, hhole⟩)]
      split <;> exact hpaired

/-- The lexer is paired after the first of a pair, unless that was the second of another. -/
theorem paired_step_iff :
    (lx.step c (some d)).paired = true ↔ lx.paired = false ∧ lx.Pairs c d := by
  unfold step
  cases hpaired : lx.paired with
  | true => simp
  | false =>
    rw [if_neg Bool.false_ne_true, pairs_iff]
    cases hmode : lx.mode with
    | code => simp [paired_stepCode hpaired]
    | lineComment =>
      dsimp only
      split <;> simp [hpaired]
    | blockComment =>
      simp only [Option.some.injEq]
      split <;> simp [*]
    | quoted quote => simp [paired_stepQuoted hpaired]

theorem inCode_closeBrace (hcode : lx.inCode = true) :
    lx.closeBrace.inCode = (lx.holes.head? != some 0) := by
  unfold closeBrace
  split
  · rename_i hholes
    rw [hcode, hholes]
    rfl
  · rename_i hholes
    rw [hholes]
    simp [inCode]
  · rename_i hholes
    rw [hholes]
    exact hcode.trans (by simp)

theorem inCode_stepCode (hcode : lx.inCode = true) :
    (lx.stepCode c next).inCode = lx.reports c next := by
  obtain ⟨hmode, hpaired⟩ := inCode_iff.mp hcode
  unfold stepCode reports
  rw [hmode]
  dsimp only
  by_cases hquote : c = '"' ∨ c = '\'' ∨ c = backtick
  · rw [if_pos hquote, if_pos hquote]
    simp [inCode]
  rw [if_neg hquote, if_neg hquote]
  by_cases hline : c = '/' ∧ next = some '/'
  · rw [if_pos hline, if_pos ⟨hline.1, Or.inl hline.2⟩]
    simp [inCode]
  rw [if_neg hline]
  by_cases hblock : c = '/' ∧ next = some '*'
  · rw [if_pos hblock, if_pos ⟨hblock.1, Or.inr hblock.2⟩]
    simp [inCode]
  have hcomment : ¬ (c = '/' ∧ (next = some '/' ∨ next = some '*')) := by
    rintro ⟨hc, hslash | hstar⟩
    · exact hline ⟨hc, hslash⟩
    · exact hblock ⟨hc, hstar⟩
  rw [if_neg hblock, if_neg hcomment]
  by_cases hopen : c = '{'
  · subst hopen
    rw [if_pos rfl, if_neg (by decide), inCode, mode_openBrace, paired_openBrace]
    exact hcode
  rw [if_neg hopen]
  by_cases hclose : c = '}'
  · rw [if_pos hclose, if_pos hclose, inCode_closeBrace hcode]
  · rw [if_neg hclose, if_neg hclose, hcode]

/-- A character is code when the lexer steps on it and reports so. -/
theorem inCode_and_inCode_step (lx : Lexer) (c : Char) (next : Option Char) :
    (lx.inCode && (lx.step c next).inCode) = (!lx.paired && lx.reports c next) := by
  cases hcode : lx.inCode with
  | true =>
    obtain ⟨hmode, hpaired⟩ := inCode_iff.mp hcode
    have hstep : lx.step c next = lx.stepCode c next := by simp [step, hmode, hpaired]
    rw [hstep, inCode_stepCode hcode, hpaired]
    rfl
  | false =>
    cases hpaired : lx.paired with
    | true => rfl
    | false =>
      unfold reports
      cases hmode : lx.mode with
      | code => simp [inCode, hmode, hpaired] at hcode
      | _ => rfl

end Lexer

/-! ## Runs -/

/-- In the run over a text that starts with `before` and `c`, the lexer steps on `c`. -/
def StepsOn (before : List Char) (c : Char) : Prop :=
  (Lexer.start.advance before (some c)).paired = false

/-- In the run over a text that starts with `before` and `c`, the lexer swallows `c`: it has stepped on the
character before it, which makes a pair with `c`. -/
def Swallows (before : List Char) (c : Char) : Prop :=
  ∃ front first, before = front ++ [first] ∧ StepsOn front first ∧
    (Lexer.start.advance front (some first)).Pairs first c

section

variable {before : List Char} {c : Char} {next : Option Char}

theorem swallows_iff : Swallows before c ↔ (Lexer.start.advance before (some c)).paired = true := by
  rcases List.eq_nil_or_concat before with rfl | ⟨front, first, rfl⟩
  · constructor
    · rintro ⟨front, first, hnil, -⟩
      simp at hnil
    · intro h
      exact Bool.noConfusion h
  · rw [List.concat_eq_append]
    have hstep : Lexer.start.advance (front ++ [first]) (some c) =
        (Lexer.start.advance front (some first)).step first (some c) := Lexer.advance_append ..
    rw [hstep, Lexer.paired_step_iff]
    constructor
    · rintro ⟨front', first', heq, hsteps, hpairs⟩
      obtain ⟨rfl, hfirst⟩ := List.append_inj' heq rfl
      obtain rfl := (List.cons.inj hfirst).1
      exact ⟨hsteps, hpairs⟩
    · rintro ⟨hsteps, hpairs⟩
      exact ⟨front, first, rfl, hsteps, hpairs⟩

/-- The lexer steps on every character that it does not swallow. -/
theorem stepsOn_iff : StepsOn before c ↔ ¬ Swallows before c := by
  rw [swallows_iff, Bool.not_eq_true]
  rfl

/-- In the run over a text the lexer leaves `c` out of code, where `before` comes before it and `next` after
it. -/
def LeavesOut (before : List Char) (c : Char) (next : Option Char) : Prop :=
  StepsOn before c ∧ (Lexer.start.advance before (some c)).reports c next = false ∨ Swallows before c

theorem leavesOut_iff : LeavesOut before c next ↔ Lexer.start.readsCode before c next = false := by
  unfold LeavesOut Lexer.readsCode
  dsimp only
  rw [stepsOn_iff, swallows_iff, Lexer.inCode_and_inCode_step]
  cases (Lexer.start.advance before (some c)).paired <;> simp

end

/-! ## Spans -/

/-- The spans are an index of the characters of the text that the lexer leaves out of code. -/
structure IndexesInert (cs : List Char) (spans : List Span) : Prop where
  /-- No span is empty. -/
  nonempty : ∀ span ∈ spans, span.start < span.stop
  /-- The spans stand in the order of the text. -/
  increasing : spans.Pairwise fun a b => a.start < b.start ∧ a.stop < b.stop
  /-- No two spans share a byte, though one may start where another ends. -/
  disjoint : spans.Pairwise fun a b => a.stop ≤ b.start
  /-- The spans lie in the text. -/
  bounded : ∀ span ∈ spans, span.stop ≤ byteLength cs
  /-- No character lies across the start or the end of a span. -/
  aligned : ∀ span ∈ spans, Aligned cs span.start ∧ Aligned cs span.stop
  /-- For each byte the spans part into those that end before or at it and those that end after it, and the
  first of the latter decides the look-up. -/
  partitioned : ∀ pos, ∃ past ahead, spans = past ++ ahead ∧ (∀ span ∈ past, span.stop ≤ pos) ∧
    (∀ span ∈ ahead, pos < span.stop) ∧
      within spans pos = ahead.head?.any fun span => span.start ≤ pos
  /-- A character is found exactly when the lexer leaves it out of code. -/
  within_iff : ∀ before c after, cs = before ++ c :: after →
    (within spans (byteLength before) = true ↔ LeavesOut before c after.head?)

/-- Spans whose ends are in order part at every byte. -/
theorem exists_partition {spans : List Span} (h : spans.Pairwise fun a b => a.stop < b.stop) (pos : Nat) :
    ∃ past ahead, spans = past ++ ahead ∧ (∀ span ∈ past, span.stop ≤ pos) ∧
      (∀ span ∈ ahead, pos < span.stop) ∧
        within spans pos = ahead.head?.any fun span => span.start ≤ pos := by
  induction spans with
  | nil => exact ⟨[], [], rfl, by simp, by simp, rfl⟩
  | cons span spans ih =>
    obtain ⟨hfirst, hrest⟩ := List.pairwise_cons.mp h
    by_cases hstop : span.stop ≤ pos
    · obtain ⟨past, ahead, rfl, hpast, hahead, hwithin⟩ := ih hrest
      refine ⟨span :: past, ahead, rfl, ?_, hahead, (within_cons_of_le hstop).trans hwithin⟩
      exact List.forall_mem_cons.mpr ⟨hstop, hpast⟩
    · have hlt : pos < span.stop := Nat.lt_of_not_le hstop
      refine ⟨[], span :: spans, rfl, by simp, ?_, within_cons_of_lt hlt⟩
      exact List.forall_mem_cons.mpr ⟨hlt, fun later hlater => Nat.lt_trans hlt (hfirst later hlater)⟩

/-- Every span is a stretch of whole characters. The text has been read up to `front`, and the lexer has left
code at the start of one of its characters if it is out of code. -/
theorem aligned_of_mem_inertSpansFrom {lx : Lexer} {opened : Option Nat} {front cs : List Char}
    (hopened : ∀ s ∈ opened, s < byteLength front ∧ Aligned (front ++ cs) s) {span : Span}
    (h : span ∈ inertSpansFrom lx opened (byteLength front) cs) :
    span.start < span.stop ∧ Aligned (front ++ cs) span.start ∧ Aligned (front ++ cs) span.stop := by
  induction cs generalizing lx opened front with
  | nil =>
    obtain ⟨start, rfl, rfl⟩ : ∃ start, opened = some start ∧ ⟨start, byteLength front⟩ = span := by
      cases opened <;> simp_all [inertSpansFrom]
    obtain ⟨hlt, haligned⟩ := hopened start rfl
    exact ⟨hlt, haligned, aligned_append front []⟩
  | cons c cs ih =>
    have hpos := c.utf8Size_pos
    have hstop : byteLength front + c.utf8Size = byteLength (front ++ [c]) := by simp
    have htext : front ++ c :: cs = (front ++ [c]) ++ cs := by simp
    have hhere : Aligned (front ++ c :: cs) (byteLength front) := aligned_append front _
    rw [inertSpansFrom, hstop] at h
    rw [htext] at hopened hhere ⊢
    have hlater : ∀ s ∈ opened, s < byteLength (front ++ [c]) ∧ Aligned (front ++ [c] ++ cs) s :=
      fun s hs => ⟨Nat.lt_trans (hopened s hs).1 (by omega), (hopened s hs).2⟩
    split at h
    · refine ih (fun s hs => ?_) h
      obtain rfl := Option.some.inj hs
      exact ⟨by omega, hhere⟩
    · split at h
      · rcases List.mem_cons.mp h with rfl | h
        · refine ⟨?_, ?_, aligned_append _ cs⟩
          · cases opened with
            | none =>
              show byteLength front < byteLength (front ++ [c])
              omega
            | some s => exact (hlater s rfl).1
          · cases opened with
            | none => exact hhere
            | some s => exact (hlater s rfl).2
        · exact ih (by simp) h
      · exact ih hlater h

/-- Each span ends where the next one starts, or before. -/
theorem pairwise_inertSpansFrom {lx : Lexer} {opened : Option Nat} {pos : Nat} {cs : List Char} :
    (inertSpansFrom lx opened pos cs).Pairwise fun a b => a.stop ≤ b.start := by
  induction cs generalizing lx opened pos with
  | nil => cases opened <;> simp [inertSpansFrom]
  | cons c cs ih =>
    rw [inertSpansFrom]
    split
    · exact ih
    · split
      · refine List.pairwise_cons.mpr ⟨fun span hspan => ?_, ih⟩
        exact le_start_of_mem_inertSpansFrom (by simp) hspan
      · exact ih

/-- The inert spans of a text are an index of what the lexer leaves out of code. -/
theorem inertSpans_index (cs : List Char) : IndexesInert cs (inertSpans cs) := by
  have hmem : ∀ span ∈ inertSpans cs,
      span.start < span.stop ∧ Aligned cs span.start ∧ Aligned cs span.stop := fun span hspan =>
    @aligned_of_mem_inertSpansFrom .start none [] cs (by simp) span hspan
  have hdisjoint : (inertSpans cs).Pairwise fun a b => a.stop ≤ b.start := pairwise_inertSpansFrom
  have hincreasing : (inertSpans cs).Pairwise fun a b => a.start < b.start ∧ a.stop < b.stop :=
    hdisjoint.imp_of_mem fun ha hb hle => by
      have hstart := (hmem _ ha).1
      have hstop := (hmem _ hb).1
      omega
  exact {
    nonempty := fun span hspan => (hmem span hspan).1
    increasing := hincreasing
    disjoint := hdisjoint
    bounded := fun span hspan => (hmem span hspan).2.2.le_byteLength
    aligned := fun span hspan => (hmem span hspan).2
    partitioned := exists_partition (hincreasing.imp And.right)
    within_iff := fun before c after htext => by
      have hc := c.utf8Size_pos
      rw [htext, within_inertSpans (Nat.le_refl _) (by omega), leavesOut_iff, Bool.not_eq_true'] }

/-- The span of a string starts where that of a comment ends. -/
example : inertSpans "a /* b */\"c\"".toList = [⟨2, 9⟩, ⟨9, 12⟩] := by decide

end SchemaModules.Lexical
