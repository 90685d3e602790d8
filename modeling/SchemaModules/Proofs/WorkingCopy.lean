import SchemaModules.Catalog.Extract
import SchemaModules.Proofs.InertSpans
import SchemaModules.Proofs.Statements

/-!
# Proofs: the working copy

In the working copy the live alias statements of a source are blanked out. They are neutral text that
the lexer reads in code, so the copy differs from the source only where the lexer takes no notice, and
every other character keeps its offset.
-/

namespace SchemaModules.Catalog

open Text Lexical Declaration

/-! ## Blanking -/

theorem byteLength_replicate (n : Nat) (c : Char) :
    byteLength (List.replicate n c) = n * c.utf8Size := by
  induction n with
  | zero => simp
  | succ n ih =>
    rw [List.replicate_succ, byteLength_cons, ih, Nat.add_mul, Nat.one_mul, Nat.add_comm]

@[simp] theorem byteLength_blanked (c : Char) : byteLength (blanked c) = c.utf8Size := by
  unfold blanked
  split
  · simp
  · rw [byteLength_replicate]
    exact Nat.mul_one _

theorem eq_of_mem_blanked {c d : Char} (h : d ∈ blanked c) : d = ' ' ∨ d = '\n' := by
  unfold blanked at h
  split at h
  · rename_i hc
    exact Or.inr (by rw [List.mem_singleton.mp h, hc])
  · exact Or.inl (List.eq_of_mem_replicate h)

theorem blanked_ne_nil (c : Char) : blanked c ≠ [] := by
  intro h
  have := c.utf8Size_pos
  rw [← byteLength_blanked, h, byteLength_nil] at this
  omega

theorem isNeutral_of_mem_blanked {c d : Char} (h : d ∈ blanked c) : isNeutral d = true := by
  rcases eq_of_mem_blanked h with rfl | rfl <;> decide

@[simp] theorem byteLength_blankSpansFrom (spans : List Span) (pos : Nat) (cs : List Char) :
    byteLength (blankSpansFrom spans pos cs) = byteLength cs := by
  induction cs generalizing pos with
  | nil => rfl
  | cons c cs ih =>
    rw [blankSpansFrom, byteLength_append, ih, byteLength_cons]
    split <;> simp

theorem blankSpansFrom_append (spans : List Span) (pos : Nat) (xs ys : List Char) :
    blankSpansFrom spans pos (xs ++ ys) =
      blankSpansFrom spans pos xs ++ blankSpansFrom spans (pos + byteLength xs) ys := by
  induction xs generalizing pos with
  | nil => simp [blankSpansFrom]
  | cons c xs ih =>
    rw [List.cons_append, blankSpansFrom, blankSpansFrom, ih, byteLength_cons, Nat.add_assoc,
      List.append_assoc]

theorem blankSpans_append (spans : List Span) (front part back : List Char) :
    blankSpans (front ++ (part ++ back)) spans = blankSpansFrom spans 0 front ++
      (blankSpansFrom spans (byteLength front) part ++
        blankSpansFrom spans (byteLength front + byteLength part) back) := by
  rw [blankSpans, blankSpansFrom_append, blankSpansFrom_append, Nat.zero_add]

/-- A part of the copy is the part of the text at the same offsets, blanked out. -/
theorem eq_blankSpansFrom_of_split {spans : List Span} {front part back : List Char}
    {front' part' back' : List Char}
    (h : blankSpans (front ++ (part ++ back)) spans = front' ++ (part' ++ back'))
    (hfront : byteLength front' = byteLength front) (hpart : byteLength part' = byteLength part) :
    part' = blankSpansFrom spans (byteLength front) part := by
  rw [blankSpans_append] at h
  have hrest := (append_inj_of_byteLength h (by rw [byteLength_blankSpansFrom, hfront])).2
  exact (append_inj_of_byteLength hrest (by rw [byteLength_blankSpansFrom, hpart])).1.symm

/-! ## The lexer over a text and its copy -/

/-- `copy` is `text` with some neutral characters blanked out, which `lx` reads in code when it reads
`text`. -/
inductive Masked : Lexer → List Char → List Char → Prop
  | nil {lx : Lexer} : Masked lx [] []
  | kept {lx : Lexer} {c : Char} {text copy : List Char}
      (tail : Masked (lx.step c text.head?) text copy) : Masked lx (c :: text) (c :: copy)
  | masked {lx : Lexer} {c : Char} {text copy : List Char} (inCode : lx.inCode = true)
      (neutral : isNeutral c = true) (tail : Masked lx text copy) :
      Masked lx (c :: text) (blanked c ++ copy)

/-- A copy masks its text when the lexer reads in code what the spans cover, and this is neutral. -/
theorem masked_blankSpansFrom {spans : List Span} {lx : Lexer} {pos : Nat} {text : List Char}
    (h : ∀ before c after, text = before ++ c :: after →
      (∃ s ∈ spans, s.start ≤ pos + byteLength before ∧ pos + byteLength before < s.stop) →
      (lx.advance before (some c)).inCode = true ∧ isNeutral c = true) :
    Masked lx text (blankSpansFrom spans pos text) := by
  induction text generalizing lx pos with
  | nil => exact .nil
  | cons c text ih =>
    rw [blankSpansFrom]
    -- the hypothesis goes on after `c`
    have later : ∀ before d after, text = before ++ d :: after →
        (∃ s ∈ spans, s.start ≤ pos + c.utf8Size + byteLength before ∧
          pos + c.utf8Size + byteLength before < s.stop) →
        ((lx.step c text.head?).advance before (some d)).inCode = true ∧ isNeutral d = true := by
      rintro before d after rfl hs
      have := h (c :: before) d after rfl (by simpa only [byteLength_cons, Nat.add_assoc] using hs)
      rwa [Lexer.advance, ← List.head?_cons (a := d) (l := after), ← List.head?_append] at this
    split
    · rename_i hspan
      have hspan' : ∃ s ∈ spans, s.start ≤ pos + byteLength [] ∧ pos + byteLength [] < s.stop := by
        simpa using hspan
      obtain ⟨hcode, hneutral⟩ := h [] c text rfl hspan'
      rw [Lexer.advance_nil] at hcode
      refine .masked hcode hneutral (ih fun before d after htext hs => ?_)
      have := later before d after htext hs
      rwa [Lexer.step_neutral hcode hneutral] at this
    · exact .kept (ih later)

namespace Masked

variable {lx : Lexer} {text copy : List Char}

/-- What the text starts with, and what the copy starts with, are the same or both neutral. -/
theorem head?_eq_or_neutral (h : Masked lx text copy) :
    text.head? = copy.head? ∨
      (∀ d ∈ text.head?, isNeutral d = true) ∧ ∀ d ∈ copy.head?, isNeutral d = true := by
  cases h with
  | nil => exact Or.inl rfl
  | kept tail => exact Or.inl rfl
  | @masked _ c text copy inCode neutral tail =>
    refine Or.inr ⟨fun d hd => ?_, fun d hd => ?_⟩
    · rwa [← Option.some.inj hd]
    · obtain ⟨b, bs, hb⟩ := List.exists_cons_of_ne_nil (blanked_ne_nil c)
      rw [hb, List.cons_append, List.head?_cons] at hd
      have hmem : d ∈ blanked c := by rw [hb, ← Option.some.inj hd]; exact List.mem_cons_self ..
      exact isNeutral_of_mem_blanked hmem

/-- A character before the two reads the same whichever of them comes after it. -/
theorem step_head?_eq (h : Masked lx text copy) (ly : Lexer) (c : Char) :
    ly.step c text.head? = ly.step c copy.head? := by
  rcases h.head?_eq_or_neutral with heq | ⟨htext, hcopy⟩
  · rw [heq]
  · exact ly.step_congr_neutral c htext hcopy

/-- A character of the copy that is neither a space nor a line feed stands in the text at the same
offset, and what is neutral before it in the copy is neutral in the text. -/
theorem exists_kept {front back : List Char} {c : Char} (h : Masked lx text (front ++ c :: back))
    (hspace : c ≠ ' ') (hfeed : c ≠ '\n') :
    ∃ front' back', text = front' ++ c :: back' ∧ byteLength front' = byteLength front ∧
      ((∀ d ∈ front, isNeutral d = true) → ∀ d ∈ front', isNeutral d = true) ∧
      Masked (lx.advance front' (some c)) (c :: back') (c :: back) := by
  generalize hcopy : front ++ c :: back = copy at h
  induction h generalizing front with
  | nil => simp at hcopy
  | @kept lx d text copy tail ih =>
    cases front with
    | nil =>
      obtain ⟨rfl, rfl⟩ : c = d ∧ back = copy := by simpa using hcopy
      exact ⟨[], text, rfl, rfl, fun _ => by simp, .kept tail⟩
    | cons e front =>
      obtain ⟨rfl, hrest⟩ : e = d ∧ front ++ c :: back = copy := by simpa using hcopy
      obtain ⟨front', back', htext, hlen, hneutral, hmasked⟩ := ih hrest
      refine ⟨e :: front', back', by rw [htext]; rfl, by simp [hlen], fun hall b hb => ?_, ?_⟩
      · rcases List.mem_cons.mp hb with rfl | hb
        · exact hall b (List.mem_cons_self ..)
        · exact hneutral (fun x hx => hall x (List.mem_cons_of_mem _ hx)) b hb
      · rw [htext, List.head?_append, List.head?_cons] at hmasked
        exact hmasked
  | @masked lx d text copy inCode neutral tail ih =>
    have hfront : ∃ front₂, front = blanked d ++ front₂ ∧ front₂ ++ c :: back = copy := by
      rcases List.append_eq_append_iff.mp hcopy with ⟨bs, hbs, hback⟩ | ⟨front₂, hfront, hback⟩
      · cases bs with
        | nil => exact ⟨[], by simpa using hbs.symm, by simpa using hback⟩
        | cons b bs =>
          obtain rfl : c = b := (List.cons.inj hback).1
          have hmem : c ∈ blanked d := by rw [hbs]; simp
          rcases eq_of_mem_blanked hmem with rfl | rfl
          · exact absurd rfl hspace
          · exact absurd rfl hfeed
      · exact ⟨front₂, hfront, hback.symm⟩
    obtain ⟨front₂, rfl, hrest⟩ := hfront
    obtain ⟨front', back', htext, hlen, hneutral, hmasked⟩ := ih hrest
    refine ⟨d :: front', back', by rw [htext]; rfl, by simp [hlen], fun hall b hb => ?_, ?_⟩
    · rcases List.mem_cons.mp hb with rfl | hb
      · exact neutral
      · exact hneutral (fun x hx => hall x (List.mem_append_right _ hx)) b hb
    · rw [Lexer.advance, Lexer.step_neutral inCode neutral]
      exact hmasked

end Masked

end SchemaModules.Catalog
