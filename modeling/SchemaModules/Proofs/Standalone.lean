import SchemaModules.Proofs.Closing
import SchemaModules.Proofs.Extraction

/-!
# Proofs: declarations can stand anywhere in code

A text is *standalone* when it is read in the same way wherever it stands in code. Neutral text is, and
so is a call with its brackets. An alias is neutral text, and the declaration of an entity is neutral
text, a call, and neutral text again, although the end of the call was found in the working copy.
-/

namespace SchemaModules

open Text Lexical

namespace Lexical

/-- Read from code on, the text is always read in the same way, and leaves the lexer in code. -/
def Standalone (text : List Char) : Prop :=
  ∀ lx : Lexer, lx.inCode = true → ∀ next : Option Char,
    lx.readingsBefore text next = Lexer.start.readingsBefore text none ∧
      (lx.advance text next).inCode = true

theorem standalone_neutral {text : List Char} (h : ∀ c ∈ text, isNeutral c = true) :
    Standalone text := by
  intro lx hcode next
  have hstart : Lexer.start.inCode = true := rfl
  rw [Lexer.readingsBefore_neutral hcode h, Lexer.readingsBefore_neutral hstart h,
    Lexer.advance_neutral hcode h]
  exact ⟨rfl, hcode⟩

theorem Standalone.append {xs ys : List Char} (hx : Standalone xs) (hy : Standalone ys) :
    Standalone (xs ++ ys) := by
  have hboth : ∀ lx : Lexer, lx.inCode = true → ∀ next : Option Char,
      lx.readingsBefore (xs ++ ys) next =
        Lexer.start.readingsBefore xs none ++ Lexer.start.readingsBefore ys none := by
    intro lx hcode next
    obtain ⟨hread, hcode'⟩ := hx lx hcode (ys.head?.or next)
    rw [Lexer.readingsBefore_append, hread, (hy _ hcode' next).1]
  intro lx hcode next
  constructor
  · rw [hboth lx hcode next, hboth .start rfl none]
  · rw [Lexer.advance_append]
    exact (hy _ (hx lx hcode _).2 next).2

/-- What a character is read as is one of the readings of the text around it. -/
theorem readingsBefore_append_cons (lx : Lexer) (before : List Char) (c : Char) (after : List Char)
    (next : Option Char) : ∃ rest, lx.readingsBefore (before ++ c :: after) next =
      lx.readingsBefore before (some c) ++ (c, lx.readsCode before c (after.head?.or next)) :: rest := by
  rw [Lexer.readingsBefore_append]
  exact ⟨_, rfl⟩

/-- Each character of a standalone text is code everywhere or nowhere. -/
theorem Standalone.readsCode_eq {before after : List Char} {c : Char}
    (h : Standalone (before ++ c :: after)) {lx : Lexer} (hcode : lx.inCode = true)
    (next : Option Char) :
    lx.readsCode before c (after.head?.or next) = Lexer.start.readsCode before c after.head? := by
  obtain ⟨rest, hrest⟩ := readingsBefore_append_cons lx before c after next
  obtain ⟨rest', hrest'⟩ := readingsBefore_append_cons .start before c after none
  have heq := (h lx hcode next).1
  rw [hrest, hrest'] at heq
  have hlen : (lx.readingsBefore before (some c)).length =
      (Lexer.start.readingsBefore before (some c)).length := by
    rw [Lexer.length_readingsBefore, Lexer.length_readingsBefore]
  have hcons := (List.append_inj heq hlen).2
  rw [Option.or_none] at hcons
  exact congrArg Prod.snd (List.cons.inj hcons).1

/-- A byte of a standalone text that stands in code is inert as if the text stood alone. -/
theorem within_inertSpans_of_standalone {front text back : List Char} (h : Standalone text)
    (hcode : (Lexer.start.advance front text.head?).inCode = true) {before after : List Char}
    {c : Char} (htext : text = before ++ c :: after) {k : Nat} (hle : byteLength before ≤ k)
    (hlt : k < byteLength before + c.utf8Size) :
    within (inertSpans (front ++ (text ++ back))) (byteLength front + k) =
      !Lexer.start.readsCode before c after.head? := by
  subst htext
  have hsplit : front ++ (before ++ c :: after ++ back) =
      (front ++ before) ++ c :: (after ++ back) := by simp
  have hhead : (before ++ c :: after).head? = before.head?.or (some c) := by
    rw [List.head?_append, List.head?_cons]
  rw [hsplit, within_inertSpans (by rw [byteLength_append]; omega)
    (by rw [byteLength_append]; omega), ← h.readsCode_eq hcode back.head?, List.head?_append,
    Lexer.readsCode_append, hhead]

end Lexical

namespace Declaration

theorem Closes.standalone {text : List Char} (h : Closes .start [] text) : Standalone text :=
  fun _ hcode next => h.readingsBefore_eq (.start hcode) next

theorem bracketStep_neutral {c : Char} (hc : isNeutral c = true) (isCode : Bool)
    (stack : List Char) : bracketStep isCode c stack = some stack := by
  have hne := ne_of_isNeutral hc
  simp [bracketStep, closerOf?, isCloser, hne '(' (by decide), hne ')' (by decide),
    hne '[' (by decide), hne ']' (by decide), hne '{' (by decide), hne '}' (by decide)]

theorem isCloser_of_isNeutral {c : Char} (hc : isNeutral c = true) : isCloser c = false := by
  have hne := ne_of_isNeutral hc
  simp [isCloser, hne ')' (by decide), hne '}' (by decide), hne ']' (by decide)]

theorem Closes.cons_neutral {lx : Lexer} {stack text : List Char} (h : Closes lx stack text)
    (hcode : lx.inCode = true) {c : Char} (hc : isNeutral c = true) :
    Closes lx stack (c :: text) := by
  refine .more (bracketStep_neutral hc _ stack) (fun _ hcloser => ?_) ?_
  · exact absurd (isCloser_of_isNeutral hc) (by simp [hcloser])
  · rw [Lexer.step_neutral hcode hc]
    exact h

/-- Neutral text at the start of a text that closes may be left out. -/
theorem Closes.exists_of_neutral {lx : Lexer} {stack front back neutral copy : List Char}
    (h : Closes lx stack front) (hcode : lx.inCode = true)
    (hneutral : ∀ c ∈ neutral, isNeutral c = true) (heq : neutral ++ copy = front ++ back) :
    ∃ rest, copy = rest ++ back ∧ front = neutral ++ rest ∧ Closes lx stack rest := by
  induction neutral generalizing front with
  | nil => exact ⟨front, heq, rfl, h⟩
  | cons b neutral ih =>
    have hb := hneutral b (List.mem_cons_self ..)
    cases h with
    | @last _ c _ closer =>
      obtain rfl : b = c := (List.cons.inj heq).1
      have hmark : b ∈ marks := by
        rcases eq_of_isCloser closer with rfl | rfl | rfl <;> decide
      exact absurd rfl (ne_of_isNeutral hb b hmark)
    | @more _ c _ stack' text fits _ tail =>
      obtain ⟨rfl, hrest⟩ := List.cons.inj heq
      rw [bracketStep_neutral hb] at fits
      rw [Lexer.step_neutral hcode hb, ← Option.some.inj fits] at tail
      obtain ⟨rest, hcopy, htext, hcloses⟩ :=
        ih tail (fun c hc => hneutral c (List.mem_cons_of_mem _ hc)) hrest
      exact ⟨rest, hcopy, by rw [htext]; rfl, hcloses⟩

end Declaration

namespace Catalog

open Declaration

/-- What closes in the copy closes in the text, at the same offset. -/
theorem Masked.exists_closes {holes : List Nat} {stack text copy front back : List Char}
    {inner lx : Lexer} (h : Masked lx text copy) (hcopy : copy = front ++ back)
    (hcloses : Closes inner stack front) (hctx : InContext holes stack inner lx) :
    ∃ front' back', text = front' ++ back' ∧ byteLength front' = byteLength front ∧
      Closes inner stack front' ∧ Masked (lx.advance front' back'.head?) back' back := by
  induction h generalizing front stack inner with
  | nil => exact absurd (List.append_eq_nil_iff.mp hcopy.symm).1 hcloses.ne_nil
  | @kept lx c text copy tail ih =>
    cases hcloses with
    | @last _ d _ closer isCode fits =>
      obtain ⟨rfl, rfl⟩ := List.cons.inj hcopy
      exact ⟨[c], text, rfl, rfl, .last closer isCode fits, tail⟩
    | @more _ d _ stack' front fits still_open rest =>
      obtain ⟨rfl, rfl⟩ : c = d ∧ copy = front ++ back := by simpa using hcopy
      -- what comes after `c` differs in the two texts only where `c` is read in the same way
      rw [← rest.head?_append back, ← tail.step_head?_eq] at fits still_open rest
      obtain ⟨front', back', rfl, hlen, hcloses', hmasked⟩ := ih rfl rest (hctx.step fits)
      have hhead := hcloses'.head?_append back'
      refine ⟨c :: front', back', rfl, by simp [hlen], ?_, ?_⟩
      · rw [hhead] at fits still_open hcloses'
        exact .more fits still_open hcloses'
      · rw [Lexer.advance, hcloses'.head?_or, ← hhead]
        exact hmasked
  | @masked lx c text copy inCode neutral tail ih =>
    -- what stands for `c` is neutral like `c`, so the search passes over both alike
    have hin : inner.inCode = true := hctx.inCode_eq ▸ inCode
    obtain ⟨front₂, hcopy₂, rfl, hcloses₂⟩ :=
      hcloses.exists_of_neutral hin (fun d hd => isNeutral_of_mem_blanked hd) hcopy
    obtain ⟨front', back', rfl, hlen, hcloses', hmasked⟩ := ih hcopy₂ hcloses₂ hctx
    refine ⟨c :: front', back', rfl, by simp [hlen], hcloses'.cons_neutral hin neutral, ?_⟩
    rw [Lexer.advance, Lexer.step_neutral inCode neutral]
    exact hmasked

end Catalog

end SchemaModules
