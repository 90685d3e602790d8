import Mathlib.Algebra.GroupWithZero.Nat
import SchemaModules.Declaration.Extent
import SchemaModules.Proofs.Bytes
import SchemaModules.Proofs.Reading

/-!
# Proofs: a call closes in the same way wherever it stands

The search for the end of a declaration reads with a lexer of its own, which knows of no hole around
the declaration. In a hole a closing brace may end the hole, but no brace of the declaration does: the
lexer in the hole has counted the opening brace that it belongs to. So the two lexers read the same,
up to the bracket that closes the call.
-/

namespace SchemaModules.Declaration

open Text Lexical

/-- The closers still to come after reading `c`, when it is code or not; nothing when `c` is a closer
that does not fit. -/
def bracketStep (isCode : Bool) (c : Char) (stack : List Char) : Option (List Char) :=
  if isCode then
    match closerOf? c with
    | some closer => some (closer :: stack)
    | none =>
      if isCloser c then
        match stack with
        | [] => none
        | expected :: outer => if c = expected then some outer else none
      else some stack
  else some stack

/-- Read from the lexer on, the text goes on to the first closer after which nothing in the stack is
left to close. -/
inductive Closes : Lexer → List Char → List Char → Prop
  | last {lx : Lexer} {c : Char} {stack : List Char} (closer : isCloser c = true)
      (isCode : (lx.inCode && (lx.step c none).inCode) = true)
      (fits : bracketStep true c stack = some []) : Closes lx stack [c]
  | more {lx : Lexer} {c : Char} {stack stack' text : List Char}
      (fits : bracketStep (lx.inCode && (lx.step c text.head?).inCode) c stack = some stack')
      (still_open : (lx.inCode && (lx.step c text.head?).inCode) = true → isCloser c = true →
        stack' ≠ [])
      (tail : Closes (lx.step c text.head?) stack' text) : Closes lx stack (c :: text)

theorem Closes.ne_nil {lx : Lexer} {stack text : List Char} (h : Closes lx stack text) :
    text ≠ [] := by
  cases h <;> simp

/-- What comes after a text that closes is not what the text starts with. -/
theorem Closes.head?_or {lx : Lexer} {stack text : List Char} (h : Closes lx stack text)
    (next : Option Char) : text.head?.or next = text.head? := by
  obtain ⟨c, cs, rfl⟩ := List.exists_cons_of_ne_nil h.ne_nil
  rfl

theorem Closes.head?_append {lx : Lexer} {stack text : List Char} (h : Closes lx stack text)
    (rest : List Char) : (text ++ rest).head? = text.head? := by
  rw [List.head?_append, h.head?_or]

theorem eq_of_isCloser {c : Char} (h : isCloser c = true) : c = ')' ∨ c = '}' ∨ c = ']' := by
  simpa [isCloser, or_assoc] using h

theorem closerOf?_of_isCloser {c : Char} (h : isCloser c = true) : closerOf? c = none := by
  rcases eq_of_isCloser h with rfl | rfl | rfl <;> decide

/-- A closer in code reads the same whatever comes after it. -/
theorem step_closer {lx : Lexer} (hcode : lx.inCode = true) {c : Char} (hc : isCloser c = true)
    (next next' : Option Char) : lx.step c next = lx.step c next' := by
  obtain ⟨hmode, hpaired⟩ := Lexer.inCode_iff.mp hcode
  have hslash : c ≠ '/' := by
    rcases eq_of_isCloser hc with rfl | rfl | rfl <;> decide
  simp [Lexer.step, Lexer.stepCode, hmode, hpaired, hslash]

/-- A search that finds the end goes on after the first character, or ends with it. -/
theorem balanceFrom_cons {lx : Lexer} {c : Char} {stack cs : List Char} {pos stop : Nat}
    (h : balanceFrom lx stack pos (c :: cs) = .closed stop) :
    (∃ stack', bracketStep (lx.inCode && (lx.step c cs.head?).inCode) c stack = some stack' ∧
      ((lx.inCode && (lx.step c cs.head?).inCode) = true → isCloser c = true → stack' ≠ []) ∧
      balanceFrom (lx.step c cs.head?) stack' (pos + c.utf8Size) cs = .closed stop) ∨
    (isCloser c = true ∧ (lx.inCode && (lx.step c cs.head?).inCode) = true ∧
      bracketStep true c stack = some [] ∧ stop = pos + c.utf8Size) := by
  unfold balanceFrom at h
  dsimp only at h
  split at h
  · rename_i hcode
    rw [hcode]
    split at h
    · rename_i closer hopens
      exact Or.inl ⟨_, by simp [bracketStep, hopens], fun _ _ => by simp, h⟩
    · rename_i hopens
      split at h
      · rename_i hcloser
        split at h
        · simp at h
        · rename_i expected outer
          split at h
          · simp at h
          · rename_i hexpected
            have hfits : bracketStep true c (expected :: outer) = some outer := by
              simpa [bracketStep, hopens, hcloser] using hexpected
            split at h
            · rename_i houter
              obtain rfl : outer = [] := by simpa using houter
              exact Or.inr ⟨hcloser, rfl, hfits, (Balance.closed.inj h).symm⟩
            · rename_i houter
              exact Or.inl ⟨outer, hfits, fun _ _ => by simpa using houter, h⟩
      · rename_i hcloser
        exact Or.inl ⟨stack, by simp [bracketStep, hopens, hcloser], fun _ hc => absurd hc hcloser,
          h⟩
  · rename_i hcode
    rw [Bool.not_eq_true] at hcode
    rw [hcode]
    exact Or.inl ⟨stack, rfl, fun hcode' => Bool.noConfusion hcode', h⟩

/-- A search that finds the end has read a text that closes. -/
theorem exists_of_balanceFrom {lx : Lexer} {stack cs : List Char} {pos stop : Nat}
    (h : balanceFrom lx stack pos cs = .closed stop) :
    ∃ text rest, cs = text ++ rest ∧ stop = pos + byteLength text ∧ Closes lx stack text := by
  induction cs generalizing lx stack pos with
  | nil => simp [balanceFrom] at h
  | cons c cs ih =>
    rcases balanceFrom_cons h with ⟨stack', hfits, hopen, hrest⟩ | ⟨hcloser, hcode, hfits, hstop⟩
    · obtain ⟨text, rest, rfl, hstop, hcloses⟩ := ih hrest
      rw [hcloses.head?_append] at hfits hopen hcloses
      refine ⟨c :: text, rest, rfl, ?_, .more hfits hopen hcloses⟩
      rw [hstop, byteLength_cons, Nat.add_assoc]
    · have hin : lx.inCode = true := (Bool.and_eq_true_iff.mp hcode).1
      rw [step_closer hin hcloser _ none] at hcode
      exact ⟨[c], cs, rfl, by simpa using hstop, .last hcloser hcode hfits⟩

/-- A search goes on after a character that leaves brackets open. -/
theorem balanceFrom_step {lx : Lexer} {c : Char} {stack stack' cs : List Char}
    (hfits : bracketStep (lx.inCode && (lx.step c cs.head?).inCode) c stack = some stack')
    (hopen : (lx.inCode && (lx.step c cs.head?).inCode) = true → isCloser c = true → stack' ≠ [])
    (pos : Nat) : balanceFrom lx stack pos (c :: cs) =
      balanceFrom (lx.step c cs.head?) stack' (pos + c.utf8Size) cs := by
  rw [balanceFrom.eq_def]
  dsimp only
  cases hcode : lx.inCode && (lx.step c cs.head?).inCode with
  | false =>
    rw [hcode] at hfits
    obtain rfl := Option.some.inj hfits
    rfl
  | true =>
    rw [hcode] at hfits hopen
    rw [if_pos rfl]
    cases hkind : closerOf? c with
    | some closer =>
      obtain rfl : closer :: stack = stack' := by simpa [bracketStep, hkind] using hfits
      rfl
    | none =>
      by_cases hcloser : isCloser c = true
      · cases stack with
        | nil => simp [bracketStep, hkind, hcloser] at hfits
        | cons expected outer =>
          have hparts : c = expected ∧ outer = stack' := by
            simpa [bracketStep, hkind, hcloser] using hfits
          obtain ⟨rfl, rfl⟩ := hparts
          have houter : outer.isEmpty = false := by simpa using hopen rfl hcloser
          simp [hcloser, houter]
      · obtain rfl : stack = stack' := by simpa [bracketStep, hkind, hcloser] using hfits
        simp [hcloser]

/-- A search finds the end of a text that closes, whatever comes after it. -/
theorem Closes.balanceFrom_eq {lx : Lexer} {stack text : List Char} (h : Closes lx stack text)
    (pos : Nat) (rest : List Char) :
    balanceFrom lx stack pos (text ++ rest) = .closed (pos + byteLength text) := by
  induction h generalizing pos with
  | @last lx c stack closer isCode fits =>
    have hkind := closerOf?_of_isCloser closer
    rw [← step_closer (Bool.and_eq_true_iff.mp isCode).1 closer rest.head? none] at isCode
    cases stack with
    | nil => simp [bracketStep, hkind, closer] at fits
    | cons expected outer =>
      have hparts : c = expected ∧ outer = [] := by simpa [bracketStep, hkind, closer] using fits
      obtain ⟨rfl, rfl⟩ := hparts
      simp [balanceFrom, isCode, hkind, closer]
  | @more lx c stack stack' text fits still_open tail ih =>
    rw [← tail.head?_append rest] at fits still_open ih
    rw [List.cons_append, balanceFrom_step fits still_open, ih, byteLength_cons, Nat.add_assoc]

/-! ## The lexer of the search and a lexer in a hole -/

/-- The holes `outer` after `extra` braces have been opened in the innermost of them. -/
def deepen (extra : Nat) : List Nat → List Nat
  | [] => []
  | count :: outer => (count + extra) :: outer

/-- The lexer `lx` has read in the holes `outer` what `inner` has read in none, and the stack has a
closing brace for every brace that was opened meanwhile. -/
structure InContext (outer : List Nat) (stack : List Char) (inner lx : Lexer) : Prop where
  /-- The two are in the same mode. -/
  mode : lx.mode = inner.mode
  /-- Both have a pair to complete, or neither has. -/
  paired : lx.paired = inner.paired
  /-- The braces that `inner` has not counted stand in the innermost hole of the others. -/
  holes : ∃ extra, lx.holes = inner.holes ++ deepen extra outer ∧
    extra + inner.holes.sum = stack.count '}'

namespace InContext

variable {outer : List Nat} {stack stack' : List Char} {inner lx : Lexer} {c : Char}
  {next : Option Char}

/-- At the start of a declaration nothing has been opened yet. -/
theorem start (hcode : lx.inCode = true) : InContext lx.holes [] .start lx := by
  obtain ⟨hmode, hpaired⟩ := Lexer.inCode_iff.mp hcode
  refine ⟨hmode, hpaired, 0, ?_, rfl⟩
  show lx.holes = deepen 0 lx.holes
  cases lx.holes with
  | nil => rfl
  | cons count outer => rfl

theorem inCode_eq (h : InContext outer stack inner lx) : lx.inCode = inner.inCode := by
  unfold Lexer.inCode
  rw [h.mode, h.paired]

theorem congr (h : InContext outer stack inner lx) {inner' lx' : Lexer}
    (hmode : lx'.mode = inner'.mode) (hpaired : lx'.paired = inner'.paired)
    (hholes : lx'.holes = lx.holes) (hinner : inner'.holes = inner.holes)
    (hcount : stack'.count '}' = stack.count '}') : InContext outer stack' inner' lx' := by
  obtain ⟨extra, hextra, hsum⟩ := h.holes
  exact ⟨hmode, hpaired, extra, by rw [hholes, hinner, hextra], by rw [hinner, hsum, hcount]⟩

theorem openHole (h : InContext outer stack inner lx) :
    InContext outer stack { mode := .code, holes := 0 :: inner.holes, paired := true }
      { mode := .code, holes := 0 :: lx.holes, paired := true } := by
  obtain ⟨extra, hextra, hsum⟩ := h.holes
  refine ⟨rfl, rfl, extra, ?_, ?_⟩
  · rw [hextra]
    rfl
  · rw [List.sum_cons, Nat.zero_add]
    exact hsum

theorem openBrace (h : InContext outer stack inner lx) :
    InContext outer ('}' :: stack) inner.openBrace lx.openBrace := by
  obtain ⟨extra, hextra, hsum⟩ := h.holes
  have hcount : ('}' :: stack).count '}' = stack.count '}' + 1 := List.count_cons_self
  unfold Lexer.openBrace
  cases hinner : inner.holes with
  | nil =>
    rw [hinner, List.nil_append] at hextra
    rw [hinner, List.sum_nil] at hsum
    cases outer with
    | nil =>
      rw [hextra]
      exact ⟨h.mode, h.paired, extra + 1, by rw [hinner]; exact hextra, by
        rw [hinner, List.sum_nil]
        omega⟩
    | cons count outer =>
      rw [hextra]
      exact ⟨h.mode, h.paired, extra + 1, by rw [hinner]; rfl, by
        rw [hinner, List.sum_nil]
        omega⟩
  | cons count holes =>
    rw [hinner, List.cons_append] at hextra
    rw [hinner, List.sum_cons] at hsum
    rw [hextra]
    refine ⟨h.mode, h.paired, extra, rfl, ?_⟩
    rw [List.sum_cons]
    omega

/-- Where `inner` counts no braces, the stack says that `lx` has counted the opener of a closing brace,
so the brace ends no hole around the declaration. -/
theorem closeBrace_of_holes_eq_nil (h : InContext outer ('}' :: stack) inner lx)
    (hinner : inner.holes = []) : InContext outer stack inner lx.closeBrace := by
  obtain ⟨extra, hextra, hsum⟩ := h.holes
  rw [hinner, List.nil_append] at hextra
  rw [hinner, List.sum_nil, List.count_cons_self] at hsum
  unfold Lexer.closeBrace
  cases outer with
  | nil =>
    rw [hextra]
    exact ⟨h.mode, h.paired, extra - 1, by rw [hinner]; exact hextra, by
      rw [hinner, List.sum_nil]
      omega⟩
  | cons count outer =>
    obtain ⟨extra, rfl⟩ : ∃ n, extra = n + 1 := ⟨extra - 1, by omega⟩
    rw [hextra]
    refine ⟨h.mode, h.paired, extra, by rw [hinner]; rfl, ?_⟩
    rw [hinner, List.sum_nil]
    omega

/-- A closing brace ends a hole of the declaration, for both lexers, or fits the stack. -/
theorem closeBrace (h : InContext outer stack inner lx) (hcode : inner.inCode = true)
    (hfits : bracketStep inner.closeBrace.inCode '}' stack = some stack') :
    InContext outer stack' inner.closeBrace lx.closeBrace := by
  have hpop : bracketStep true '}' stack = some stack' → stack = '}' :: stack' := by
    intro hfits
    cases stack with
    | nil => simp [bracketStep, closerOf?, isCloser] at hfits
    | cons expected rest => simpa [bracketStep, closerOf?, isCloser, eq_comm] using hfits
  cases hinner : inner.holes with
  | nil =>
    have hsame : inner.closeBrace = inner := by
      unfold Lexer.closeBrace
      rw [hinner]
    rw [hsame] at hfits ⊢
    obtain rfl := hpop (hcode ▸ hfits)
    exact h.closeBrace_of_holes_eq_nil hinner
  | cons count holes =>
    obtain ⟨extra, hextra, hsum⟩ := h.holes
    unfold Lexer.closeBrace at hfits ⊢
    rw [hinner] at hfits hextra hsum
    rw [List.cons_append] at hextra
    rw [List.sum_cons] at hsum
    rw [hextra, hinner]
    cases count with
    | zero =>
      obtain rfl : stack = stack' := by simpa [bracketStep, Lexer.inCode] using hfits
      rw [Nat.zero_add] at hsum
      exact ⟨rfl, h.paired, extra, rfl, hsum⟩
    | succ count =>
      have hcode' : Lexer.inCode { inner with holes := count :: holes } = true := hcode
      rw [hcode'] at hfits
      obtain rfl := hpop hfits
      rw [List.count_cons_self] at hsum
      refine ⟨h.mode, h.paired, extra, rfl, ?_⟩
      rw [List.sum_cons]
      omega

theorem count_bracketStep {isCode : Bool} (hopen : c ≠ '{') (hclose : c ≠ '}')
    (hfits : bracketStep isCode c stack = some stack') : stack'.count '}' = stack.count '}' := by
  unfold bracketStep at hfits
  split at hfits
  · split at hfits
    · rename_i closer hkind
      have hne : closer ≠ '}' := by
        rintro rfl
        unfold closerOf? at hkind
        rw [if_neg hopen] at hkind
        split at hkind
        · exact absurd (Option.some.inj hkind) (by decide)
        · split at hkind
          · exact absurd (Option.some.inj hkind) (by decide)
          · simp at hkind
      rw [← Option.some.inj hfits, List.count_cons_of_ne hne]
    · split at hfits
      · split at hfits
        · simp at hfits
        · split at hfits
          · rename_i heq
            rw [← Option.some.inj hfits, List.count_cons_of_ne (heq ▸ hclose)]
          · simp at hfits
      · rw [Option.some.inj hfits]
  · rw [Option.some.inj hfits]

theorem stepQuoted (h : InContext outer stack inner lx) (quote : Char) :
    InContext outer stack (inner.stepQuoted quote c next) (lx.stepQuoted quote c next) := by
  unfold Lexer.stepQuoted
  by_cases hescape : c = '\\'
  · rw [if_pos hescape, if_pos hescape]
    exact h.congr h.mode rfl rfl rfl rfl
  · rw [if_neg hescape, if_neg hescape]
    by_cases hhole : quote = backtick ∧ c = '$' ∧ next = some '{'
    · rw [if_pos hhole, if_pos hhole]
      exact h.openHole
    · rw [if_neg hhole, if_neg hhole]
      by_cases hquote : c = quote
      · rw [if_pos hquote, if_pos hquote]
        exact h.congr rfl h.paired rfl rfl rfl
      · rw [if_neg hquote, if_neg hquote]
        exact h

theorem stepCode (h : InContext outer stack inner lx) (hcode : inner.inCode = true)
    (hfits : bracketStep (inner.stepCode c next).inCode c stack = some stack') :
    InContext outer stack' (inner.stepCode c next) (lx.stepCode c next) := by
  unfold Lexer.stepCode at hfits ⊢
  by_cases hquote : c = '"' ∨ c = '\'' ∨ c = backtick
  · rw [if_pos hquote] at hfits
    rw [if_pos hquote, if_pos hquote]
    obtain rfl := Option.some.inj hfits
    exact h.congr rfl h.paired rfl rfl rfl
  rw [if_neg hquote] at hfits
  rw [if_neg hquote, if_neg hquote]
  by_cases hline : c = '/' ∧ next = some '/'
  · rw [if_pos hline] at hfits
    rw [if_pos hline, if_pos hline]
    obtain rfl := Option.some.inj hfits
    exact h.congr rfl h.paired rfl rfl rfl
  rw [if_neg hline] at hfits
  rw [if_neg hline, if_neg hline]
  by_cases hblock : c = '/' ∧ next = some '*'
  · rw [if_pos hblock] at hfits
    rw [if_pos hblock, if_pos hblock]
    obtain rfl := Option.some.inj hfits
    exact h.congr rfl rfl rfl rfl rfl
  rw [if_neg hblock] at hfits
  rw [if_neg hblock, if_neg hblock]
  by_cases hopen : c = '{'
  · rw [if_pos hopen] at hfits
    rw [if_pos hopen, if_pos hopen]
    have hstill : inner.openBrace.inCode = true := by
      unfold Lexer.openBrace
      split <;> exact hcode
    rw [hstill, hopen] at hfits
    obtain rfl := Option.some.inj hfits
    exact h.openBrace
  rw [if_neg hopen] at hfits
  rw [if_neg hopen, if_neg hopen]
  by_cases hclose : c = '}'
  · rw [if_pos hclose, hclose] at hfits
    rw [if_pos hclose, if_pos hclose]
    exact h.closeBrace hcode hfits
  · rw [if_neg hclose] at hfits
    rw [if_neg hclose, if_neg hclose]
    exact h.congr h.mode h.paired rfl rfl (count_bracketStep hopen hclose hfits)

/-- Out of code no bracket counts. -/
theorem step_of_inCode_eq_false (h : InContext outer stack inner lx) (hout : inner.inCode = false) :
    InContext outer stack (inner.step c next) (lx.step c next) := by
  unfold Lexer.step
  rw [h.paired, h.mode]
  by_cases hpaired : inner.paired = true
  · rw [if_pos hpaired, if_pos hpaired]
    exact h.congr rfl rfl rfl rfl rfl
  · rw [if_neg hpaired, if_neg hpaired]
    cases hmode : inner.mode with
    | code =>
      have hcode := Lexer.inCode_iff.mpr ⟨hmode, by simpa using hpaired⟩
      rw [hout] at hcode
      exact Bool.noConfusion hcode
    | lineComment =>
      dsimp only
      by_cases hfeed : c = '\n'
      · rw [if_pos hfeed, if_pos hfeed]
        exact h.congr rfl rfl rfl rfl rfl
      · rw [if_neg hfeed, if_neg hfeed]
        exact h
    | blockComment =>
      dsimp only
      by_cases hend : c = '*' ∧ next = some '/'
      · rw [if_pos hend, if_pos hend]
        exact h.congr rfl rfl rfl rfl rfl
      · rw [if_neg hend, if_neg hend]
        exact h
    | quoted quote => exact h.stepQuoted quote

/-- Each character leaves the two lexers in context, as long as the brackets fit. -/
theorem step (h : InContext outer stack inner lx)
    (hfits : bracketStep (inner.inCode && (inner.step c next).inCode) c stack = some stack') :
    InContext outer stack' (inner.step c next) (lx.step c next) := by
  by_cases hcode : inner.inCode = true
  · have hstep : ∀ ly : Lexer, ly.inCode = true → ly.step c next = ly.stepCode c next := by
      intro ly hly
      obtain ⟨hmode, hpaired⟩ := Lexer.inCode_iff.mp hly
      simp [Lexer.step, hmode, hpaired]
    rw [hcode, Bool.true_and, hstep inner hcode] at hfits
    rw [hstep inner hcode, hstep lx (h.inCode_eq.trans hcode)]
    exact h.stepCode hcode hfits
  · have hout : inner.inCode = false := by simpa using hcode
    rw [hout] at hfits
    obtain rfl := Option.some.inj hfits
    exact h.step_of_inCode_eq_false hout

end InContext

/-- A text that closes is read the same in context, whatever comes after it, and leaves the lexer in
code. -/
theorem Closes.readingsBefore_eq {holes : List Nat} {stack text : List Char} {inner lx : Lexer}
    (h : Closes inner stack text) (hctx : InContext holes stack inner lx) (next : Option Char) :
    lx.readingsBefore text next = inner.readingsBefore text none ∧
      (lx.advance text next).inCode = true := by
  induction h generalizing lx with
  | @last inner c stack closer isCode fits =>
    have hin : lx.inCode = true := hctx.inCode_eq.trans (Bool.and_eq_true_iff.mp isCode).1
    have hafter : InContext holes [] (inner.step c none) (lx.step c none) :=
      hctx.step (by rw [isCode]; exact fits)
    have hsame : lx.step c next = lx.step c none := step_closer hin closer next none
    constructor
    · show [(c, lx.inCode && (lx.step c next).inCode)] = [(c, inner.inCode && _)]
      rw [hsame, hctx.inCode_eq, hafter.inCode_eq]
      rfl
    · show (lx.step c next).inCode = true
      rw [hsame, hafter.inCode_eq]
      exact (Bool.and_eq_true_iff.mp isCode).2
  | @more inner c stack stack' text fits _ tail ih =>
    have hafter := hctx.step fits
    obtain ⟨hread, hcode⟩ := ih hafter
    constructor
    · rw [Lexer.readingsBefore, Lexer.readingsBefore, tail.head?_or, tail.head?_or, hread,
        hctx.inCode_eq, hafter.inCode_eq]
    · rw [Lexer.advance, tail.head?_or]
      exact hcode

end SchemaModules.Declaration
