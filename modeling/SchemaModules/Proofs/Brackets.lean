import SchemaModules.Declaration.Nesting
import SchemaModules.Proofs.Standalone

/-!
# Proofs: the brackets of a call

The live brackets of a source are those that no inert span covers. The live brackets of a call that
closes are an opening bracket, brackets that nest, and the bracket that closes the first one. What is
left to read when some brackets are open *unwinds* their stack: it closes one after the other, and what
stands before each closer nests.
-/

namespace SchemaModules

open Text Lexical

namespace Declaration

/-! ## Unwinding a stack -/

/-- The brackets close those of the stack, one after the other, with nested brackets before each. -/
inductive Unwinds : List Char → List Char → Prop
  | done : Unwinds [] []
  | pop {closer : Char} {stack inner rest : List Char} (inside : Nested inner)
      (tail : Unwinds stack rest) : Unwinds (closer :: stack) (inner ++ closer :: rest)

/-- Whether `c` opens or closes a bracket. -/
def isBracket (c : Char) : Bool := (closerOf? c).isSome || isCloser c

theorem isBracket_of_isNeutral {c : Char} (h : isNeutral c = true) : isBracket c = false := by
  have hne := ne_of_isNeutral h
  simp [isBracket, closerOf?, isCloser_of_isNeutral h, hne '(' (by decide), hne '[' (by decide),
    hne '\x7b' (by decide)]

theorem codeBrackets_cons (c : Char) (isCode : Bool) (cs : List (Char × Bool)) :
    codeBrackets ((c, isCode) :: cs) =
      if isCode && isBracket c then c :: codeBrackets cs else codeBrackets cs := by
  unfold codeBrackets isBracket
  rw [List.filter_cons]
  dsimp only
  split <;> rfl

theorem codeBrackets_append (xs ys : List (Char × Bool)) :
    codeBrackets (xs ++ ys) = codeBrackets xs ++ codeBrackets ys := by
  unfold codeBrackets
  rw [List.filter_append, List.map_append]

theorem codeBrackets_neutral {cs : List Char} (h : ∀ c ∈ cs, isNeutral c = true) :
    codeBrackets (cs.map fun c => (c, true)) = [] := by
  induction cs with
  | nil => rfl
  | cons c cs ih =>
    rw [List.map_cons, codeBrackets_cons, isBracket_of_isNeutral (h c (List.mem_cons_self ..)),
      if_neg (by simp), ih fun d hd => h d (List.mem_cons_of_mem _ hd)]

/-- One more character: what unwinds the stack after it unwinds the stack before it, with its bracket in
front. -/
theorem Unwinds.cons {isCode : Bool} {c : Char} {stack stack' : List Char} {cs : List (Char × Bool)}
    (h : Unwinds stack' (codeBrackets cs)) (hstack : stack ≠ [])
    (hfits : bracketStep isCode c stack = some stack') :
    Unwinds stack (codeBrackets ((c, isCode) :: cs)) := by
  rw [codeBrackets_cons]
  cases isCode with
  | false =>
    obtain rfl := Option.some.inj hfits
    exact h
  | true =>
    unfold bracketStep at hfits
    unfold isBracket
    cases hkind : closerOf? c with
    | some closer =>
      -- the opener and what closes it stand before the next closer of the stack
      rw [hkind] at hfits
      obtain rfl := Option.some.inj hfits
      generalize codeBrackets cs = brackets at h ⊢
      cases h with
      | @pop _ _ inner rest inside tail =>
        obtain ⟨k, stack, rfl⟩ := List.exists_cons_of_ne_nil hstack
        cases tail with
        | @pop _ _ inner' rest' inside' tail =>
          have hsame : c :: (inner ++ closer :: (inner' ++ k :: rest')) =
              (c :: inner ++ closer :: inner') ++ k :: rest' := by simp
          rw [Option.isSome_some, Bool.true_or, Bool.and_self, if_pos rfl, hsame]
          exact .pop (.wrap hkind inside inside') tail
    | none =>
      rw [hkind] at hfits
      cases hcloser : isCloser c with
      | false =>
        rw [hcloser] at hfits
        obtain rfl := Option.some.inj hfits
        exact h
      | true =>
        rw [hcloser] at hfits
        obtain ⟨expected, outer, rfl⟩ := List.exists_cons_of_ne_nil hstack
        by_cases heq : c = expected
        · obtain rfl : outer = stack' := by simpa [heq] using hfits
          rw [heq]
          exact .pop .nil h
        · simp [heq] at hfits

/-- The brackets of a text that closes unwind the stack. -/
theorem Closes.unwinds {lx : Lexer} {stack text : List Char} (h : Closes lx stack text)
    (hstack : stack ≠ []) : Unwinds stack (codeBrackets (lx.readingsBefore text none)) := by
  induction h with
  | @last lx c stack closer isCode fits =>
    have hread : lx.readingsBefore [c] none = [(c, true)] := by
      rw [Lexer.readingsBefore, Lexer.readingsBefore_nil, List.head?_nil, Option.or_none, isCode]
    rw [hread]
    exact Unwinds.done.cons hstack fits
  | @more lx c stack stack' text fits still_open tail ih =>
    rw [Lexer.readingsBefore, Option.or_none]
    refine (ih ?_).cons hstack fits
    -- the stack becomes empty only where the text ends
    rintro rfl
    cases hcode : lx.inCode && (lx.step c text.head?).inCode with
    | false =>
      rw [hcode] at fits
      exact hstack (Option.some.inj fits)
    | true =>
      rw [hcode] at fits
      by_cases hcloser : isCloser c = true
      · exact still_open hcode hcloser rfl
      · unfold bracketStep at fits
        cases hkind : closerOf? c with
        | some closer => simp [hkind] at fits
        | none =>
          obtain rfl : stack = [] := by simpa [hkind, hcloser] using fits
          exact hstack rfl

/-- A text that closes ends with a closer in code. -/
theorem Closes.exists_last {lx : Lexer} {stack text : List Char} (h : Closes lx stack text) :
    ∃ front c, text = front ++ [c] ∧ isCloser c = true ∧ lx.readsCode front c none = true := by
  induction h with
  | @last lx c stack closer isCode fits => exact ⟨[], c, rfl, closer, isCode⟩
  | @more lx c stack stack' text fits still_open tail ih =>
    obtain ⟨front, d, rfl, hcloser, hcode⟩ := ih
    refine ⟨c :: front, d, rfl, hcloser, ?_⟩
    rwa [List.head?_append, List.head?_cons] at hcode

/-- A bracket in code at the end of a text is the last of its brackets. -/
theorem codeBrackets_append_last {lx : Lexer} {front : List Char} {c : Char}
    (hc : isBracket c = true) (hcode : lx.readsCode front c none = true) :
    codeBrackets (lx.readingsBefore (front ++ [c]) none) =
      codeBrackets (lx.readingsBefore front (some c)) ++ [c] := by
  have hlast : (lx.advance front (some c)).readingsBefore [c] none = [(c, true)] :=
    congrArg (fun isCode => [(c, isCode)]) hcode
  rw [Lexer.readingsBefore_append, codeBrackets_append]
  show codeBrackets (lx.readingsBefore front (some c)) ++
    codeBrackets ((lx.advance front (some c)).readingsBefore [c] none) = _
  rw [hlast, codeBrackets_cons, hc, Bool.and_self, if_pos rfl]
  rfl

/-- A call is its opening bracket, a text, and its closing bracket, which are code; the brackets between
the two nest. -/
theorem Closes.exists_of_call {call : List Char} (h : Closes .start [] call)
    (hhead : call.head? = some '(') : ∃ inner brackets, call = '(' :: (inner ++ [')']) ∧
      (∀ next, Lexer.start.readsCode [] '(' next = true) ∧
      Lexer.start.readsCode ('(' :: inner) ')' none = true ∧ Nested brackets ∧
      codeBrackets (Lexer.start.readingsBefore call none) = '(' :: (brackets ++ [')']) := by
  have hopen : ∀ next, Lexer.start.readsCode [] '(' next = true := by
    intro next
    have hne : '(' ≠ backtick := by decide
    simp [Lexer.readsCode, Lexer.start, Lexer.step, Lexer.stepCode, Lexer.inCode, hne]
  obtain ⟨front, c, hlast, hcloser, hcode⟩ := h.exists_last
  have hend := codeBrackets_append_last (by rw [isBracket, hcloser, Bool.or_true]) hcode
  rw [← hlast] at hend
  obtain ⟨rest, rfl⟩ := List.head?_eq_some_iff.mp hhead
  have hbrackets : ∃ brackets, Nested brackets ∧
      codeBrackets (Lexer.start.readingsBefore ('(' :: rest) none) = '(' :: (brackets ++ [')']) := by
    cases h with
    | last closer => exact absurd closer (by decide)
    | @more _ _ _ stack' _ fits still_open tail =>
      have hflag : (Lexer.start.inCode && (Lexer.start.step '(' rest.head?).inCode) = true :=
        hopen rest.head?
      rw [hflag] at fits
      obtain rfl : [')'] = stack' := by simpa [bracketStep, closerOf?] using fits
      have hunwinds := tail.unwinds (by simp)
      rw [Lexer.readingsBefore, Option.or_none, hflag, codeBrackets_cons, if_pos (by decide)]
      generalize codeBrackets _ = brackets at hunwinds ⊢
      cases hunwinds with
      | pop inside tail =>
        cases tail
        exact ⟨_, inside, rfl⟩
  obtain ⟨brackets, hnested, heq⟩ := hbrackets
  -- the last bracket is the last character
  rw [heq, ← List.cons_append] at hend
  obtain ⟨-, hc⟩ := List.append_inj' hend rfl
  obtain rfl : ')' = c := (List.cons.inj hc).1
  cases front with
  | nil => exact absurd (List.cons.inj hlast).1 (by decide)
  | cons d inner =>
    obtain ⟨rfl, hrest⟩ := List.cons.inj hlast
    exact ⟨inner, brackets, hlast, hopen, hcode, hnested, heq⟩

end Declaration

/-! ## Live brackets -/

namespace Catalog

open Declaration

/-- The characters of a text that starts at byte `pos`, each with the byte at which it starts. -/
def located : Nat → List Char → List (Nat × Char)
  | _, [] => []
  | pos, c :: cs => (pos, c) :: located (pos + c.utf8Size) cs

/-- The brackets from byte `start` to byte `stop` of a source that no inert span covers. -/
def liveBrackets (source : List Char) (start stop : Nat) : List Char :=
  ((located 0 source).filter fun p => (start ≤ p.1 && p.1 < stop) &&
    (!within (inertSpans source) p.1 && isBracket p.2)).map Prod.snd

theorem located_append (pos : Nat) (xs ys : List Char) :
    located pos (xs ++ ys) = located pos xs ++ located (pos + byteLength xs) ys := by
  induction xs generalizing pos with
  | nil => rfl
  | cons c xs ih => simp [located, ih, Nat.add_assoc]

theorem le_of_mem_located {pos : Nat} {cs : List Char} {p : Nat × Char} (h : p ∈ located pos cs) :
    pos ≤ p.1 ∧ p.1 < pos + byteLength cs := by
  induction cs generalizing pos with
  | nil => simp [located] at h
  | cons c cs ih =>
    have hc := c.utf8Size_pos
    rw [byteLength_cons]
    rcases List.mem_cons.mp h with rfl | h
    · dsimp only
      omega
    · have := ih h
      omega

/-- The live brackets of a part are picked from the characters of that part. -/
theorem liveBrackets_eq (front text back : List Char) :
    liveBrackets (front ++ (text ++ back)) (byteLength front) (byteLength front + byteLength text) =
      ((located (byteLength front) text).filter fun p =>
        !within (inertSpans (front ++ (text ++ back))) p.1 && isBracket p.2).map Prod.snd := by
  unfold liveBrackets
  generalize inertSpans (front ++ (text ++ back)) = spans
  rw [located_append, located_append, List.filter_append, List.filter_append, Nat.zero_add]
  have hfront : (located 0 front).filter (fun p => (byteLength front ≤ p.1 &&
      p.1 < byteLength front + byteLength text) && (!within spans p.1 && isBracket p.2)) = [] := by
    refine List.filter_eq_nil_iff.mpr fun p hp => ?_
    have := le_of_mem_located hp
    simp only [Bool.and_eq_true, decide_eq_true_eq]
    omega
  have hback : (located (byteLength front + byteLength text) back).filter (fun p =>
      (byteLength front ≤ p.1 && p.1 < byteLength front + byteLength text) &&
        (!within spans p.1 && isBracket p.2)) = [] := by
    refine List.filter_eq_nil_iff.mpr fun p hp => ?_
    have := le_of_mem_located hp
    simp only [Bool.and_eq_true, decide_eq_true_eq]
    omega
  rw [hfront, hback, List.nil_append, List.append_nil]
  refine congrArg _ (List.filter_congr fun p hp => ?_)
  have := le_of_mem_located hp
  have hstart : decide (byteLength front ≤ p.1) = true := decide_eq_true (by omega)
  have hstop : decide (p.1 < byteLength front + byteLength text) = true := decide_eq_true (by omega)
  rw [hstart, hstop, Bool.and_self, Bool.true_and]

/-- The live brackets of a standalone text in code are those that it has alone. -/
theorem liveBrackets_standalone {front text back : List Char} (h : Standalone text)
    (hcode : (Lexer.start.advance front text.head?).inCode = true) :
    liveBrackets (front ++ (text ++ back)) (byteLength front) (byteLength front + byteLength text) =
      codeBrackets (Lexer.start.readingsBefore text none) := by
  rw [liveBrackets_eq]
  have hreads : ∀ before after, text = before ++ after →
      (located (byteLength front + byteLength before) after).map (fun p =>
        (p.2, !within (inertSpans (front ++ (text ++ back))) p.1)) =
          (Lexer.start.advance before after.head?).readingsBefore after none := by
    intro before after htext
    induction after generalizing before with
    | nil => rfl
    | cons c after ih =>
      have hc := c.utf8Size_pos
      have hhere : within (inertSpans (front ++ (text ++ back))) (byteLength front + byteLength before) =
          !Lexer.start.readsCode before c after.head? :=
        within_inertSpans_of_standalone h hcode htext (Nat.le_refl _) (Nat.lt_add_of_pos_right hc)
      have hlater := ih (before ++ [c]) (by rw [htext, List.append_assoc]; rfl)
      rw [byteLength_append, byteLength_cons, byteLength_nil, Nat.add_zero, ← Nat.add_assoc,
        Lexer.advance_append] at hlater
      rw [located, List.map_cons, hhere, Bool.not_not, hlater, Lexer.readingsBefore, Option.or_none]
      rfl
  have hall := hreads [] text rfl
  rw [byteLength_nil, Nat.add_zero, Lexer.advance_nil] at hall
  rw [← hall, codeBrackets, List.filter_map, List.map_map]
  rfl

end Catalog

end SchemaModules
