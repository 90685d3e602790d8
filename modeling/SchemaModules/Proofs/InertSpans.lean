import SchemaModules.Lexical.Inert
import SchemaModules.Proofs.Reading

/-!
# Proofs: the inert spans are what the lexer reads out of code

A byte lies in an inert span exactly when the character that it belongs to is not read as code. The
search for the span that may hold a byte stops at the first one that ends after it, so what is needed
of the spans is where the first of them ends and where the others start.
-/

namespace SchemaModules.Lexical

open Text

/-- Whether `c` is read as code, where `before` has been read since `lx` and `next` is the character
after `c`, if there is one. -/
def Lexer.readsCode (lx : Lexer) (before : List Char) (c : Char) (next : Option Char) : Bool :=
  let here := lx.advance before (some c)
  here.inCode && (here.step c next).inCode

theorem Lexer.readsCode_append (lx : Lexer) (xs ys : List Char) (c : Char) (next : Option Char) :
    lx.readsCode (xs ++ ys) c next = (lx.advance xs (ys.head?.or (some c))).readsCode ys c next := by
  unfold readsCode
  rw [advance_append]

/-- In code, a neutral character after neutral ones is read as code. -/
theorem Lexer.readsCode_neutral {lx : Lexer} (hcode : lx.inCode = true) {before : List Char}
    (hbefore : ∀ d ∈ before, isNeutral d = true) {c : Char} (hc : isNeutral c = true)
    (next : Option Char) : lx.readsCode before c next = true := by
  unfold readsCode
  dsimp only
  rw [advance_neutral hcode hbefore, step_neutral hcode hc, hcode, Bool.and_self]

/-- No span starts before the lexer left code, or before the text when it stands in code. -/
theorem le_start_of_mem_inertSpansFrom {lx : Lexer} {opened : Option Nat} {pos : Nat}
    {cs : List Char} (hopened : ∀ start ∈ opened, start ≤ pos) {span : Span}
    (h : span ∈ inertSpansFrom lx opened pos cs) : opened.getD pos ≤ span.start := by
  induction cs generalizing lx opened pos with
  | nil =>
    obtain ⟨start, rfl, rfl⟩ : ∃ start, opened = some start ∧ ⟨start, pos⟩ = span := by
      cases opened <;> simp_all [inertSpansFrom]
    exact Nat.le_refl _
  | cons c cs ih =>
    have hpos : opened.getD pos ≤ pos := by
      cases opened with
      | none => exact Nat.le_refl _
      | some start => exact hopened start rfl
    rw [inertSpansFrom] at h
    split at h
    · have hle := ih (by simp) h
      simp only [Option.getD_some] at hle
      omega
    · split at h
      · rcases List.mem_cons.mp h with rfl | h
        · exact Nat.le_refl _
        · have hle := ih (by simp) h
          simp only [Option.getD_none] at hle
          omega
      · cases opened with
        | none =>
          have hle := ih (by simp) h
          simp only [Option.getD_none] at hle ⊢
          omega
        | some start =>
          have hlater : ∀ s ∈ some start, s ≤ pos + c.utf8Size := fun s hs => by
            have := hopened s hs
            omega
          have hle := ih hlater h
          simpa only [Option.getD_some] using hle

/-- When the lexer is out of code, the first span goes on from where it left code. -/
theorem inertSpansFrom_of_opened (start pos : Nat) (cs : List Char) {lx : Lexer}
    (hlx : lx.inCode = false) :
    ∃ stop tail, inertSpansFrom lx (some start) pos cs = ⟨start, stop⟩ :: tail ∧ pos ≤ stop := by
  induction cs generalizing lx pos with
  | nil => exact ⟨pos, [], rfl, Nat.le_refl _⟩
  | cons c cs ih =>
    have hcons : inertSpansFrom lx (some start) pos (c :: cs) =
        if (lx.step c cs.head?).inCode then
          ⟨start, pos + c.utf8Size⟩ ::
            inertSpansFrom (lx.step c cs.head?) none (pos + c.utf8Size) cs
        else inertSpansFrom (lx.step c cs.head?) (some start) (pos + c.utf8Size) cs := by
      simp [inertSpansFrom, hlx]
    rw [hcons]
    split
    · exact ⟨_, _, rfl, by omega⟩
    · rename_i hafter
      obtain ⟨stop, tail, heq, hle⟩ := ih (pos + c.utf8Size) (by simpa using hafter)
      exact ⟨stop, tail, heq, by omega⟩

theorem within_eq_false_of_lt {spans : List Span} {pos : Nat}
    (h : ∀ span ∈ spans, pos < span.start) : within spans pos = false := by
  unfold within
  split
  · rename_i span hfind
    have := h span (List.mem_of_find?_eq_some hfind)
    simp only [decide_eq_false_iff_not]
    omega
  · rfl

theorem within_cons_of_lt {start stop : Nat} {spans : List Span} {pos : Nat} (h : pos < stop) :
    within (⟨start, stop⟩ :: spans) pos = decide (start ≤ pos) := by
  simp [within, h]

theorem within_cons_of_le {start stop : Nat} {spans : List Span} {pos : Nat} (h : stop ≤ pos) :
    within (⟨start, stop⟩ :: spans) pos = within spans pos := by
  have : ¬ pos < stop := by omega
  simp [within, this]

section From

variable {lx : Lexer} {opened : Option Nat} {start pos : Nat} {after : List Char} {c : Char}

/-- `within_inertSpans` for the first character from any place on. The lexer has left code at the byte
`opened` if it is out of code, and there is no such byte if it is not. -/
theorem within_inertSpansFrom_head (hopened : lx.inCode = opened.isNone)
    (hle : ∀ s ∈ opened, s ≤ start) (hpos : start ≤ pos) (hlt : pos < start + c.utf8Size) :
    within (inertSpansFrom lx opened start (c :: after)) pos =
      !(lx.inCode && (lx.step c after.head?).inCode) := by
  rw [inertSpansFrom]
  cases opened with
  | none =>
    replace hopened : lx.inCode = true := hopened
    cases hafter : (lx.step c after.head?).inCode with
    | true =>
      simp only [hopened, Bool.not_true, Bool.and_false, Bool.false_eq_true, if_false,
        Bool.false_and, Bool.and_self]
      refine within_eq_false_of_lt fun span hspan => ?_
      have hstart := le_start_of_mem_inertSpansFrom (by simp) hspan
      simp only [Option.getD_none] at hstart
      omega
    | false =>
      -- `c` leaves code, and the span that starts with it comes first
      obtain ⟨stop, tail, heq, hstop⟩ :=
        inertSpansFrom_of_opened start (start + c.utf8Size) after hafter
      simp only [hopened, Bool.not_false, Bool.and_true, if_true, Bool.and_false, heq]
      rw [within_cons_of_lt (by omega)]
      simpa using hpos
  | some s =>
    replace hopened : lx.inCode = false := hopened
    have hs := hle s rfl
    cases hafter : (lx.step c after.head?).inCode with
    | true =>
      simp only [hopened, Bool.false_and, Bool.false_eq_true, if_false, Bool.not_false,
        Bool.and_true, if_true, Option.getD_some]
      rw [within_cons_of_lt hlt]
      simp only [decide_eq_true_eq]
      omega
    | false =>
      obtain ⟨stop, tail, heq, hstop⟩ :=
        inertSpansFrom_of_opened s (start + c.utf8Size) after hafter
      simp only [hopened, Bool.false_and, Bool.false_eq_true, if_false, Bool.not_false,
        Bool.and_false, heq]
      rw [within_cons_of_lt (by omega)]
      simp only [decide_eq_true_eq]
      omega

/-- `within_inertSpans` from any place on. -/
theorem within_inertSpansFrom {before : List Char} (hopened : lx.inCode = opened.isNone)
    (hle : ∀ s ∈ opened, s ≤ start) (hpos : start + byteLength before ≤ pos)
    (hlt : pos < start + byteLength before + c.utf8Size) :
    within (inertSpansFrom lx opened start (before ++ c :: after)) pos =
      !lx.readsCode before c after.head? := by
  induction before generalizing lx opened start with
  | nil => exact within_inertSpansFrom_head hopened hle hpos hlt
  | cons d before ih =>
    simp only [byteLength_cons] at hpos hlt
    have hhead : (before ++ c :: after).head? = before.head?.or (some c) := by
      rw [List.head?_append, List.head?_cons]
    have hread : lx.readsCode (d :: before) c after.head? =
        (lx.step d (before.head?.or (some c))).readsCode before c after.head? := rfl
    rw [hread, List.cons_append, inertSpansFrom, hhead]
    split
    · rename_i hleft
      simp only [Bool.and_eq_true, Bool.not_eq_true'] at hleft
      exact ih hleft.2 (by simp only [Option.mem_some_iff]; omega) (by omega) (by omega)
    · split
      · rename_i hleft hback
        simp only [Bool.and_eq_true, Bool.not_eq_true'] at hback
        rw [within_cons_of_le (by omega)]
        exact ih hback.2 (by simp) (by omega) (by omega)
      · rename_i hleft hback
        have hsame : (lx.step d (before.head?.or (some c))).inCode = lx.inCode := by
          cases hd : lx.inCode <;> cases hd' : (lx.step d (before.head?.or (some c))).inCode <;>
            simp_all
        refine ih (hsame.trans hopened) (fun s hs => ?_) (by omega) (by omega)
        have hs' := hle s hs
        omega

end From

/-- A byte of a text lies in an inert span when its character is not read as code. -/
theorem within_inertSpans {before after : List Char} {c : Char} {pos : Nat}
    (hpos : byteLength before ≤ pos) (hlt : pos < byteLength before + c.utf8Size) :
    within (inertSpans (before ++ c :: after)) pos = !Lexer.start.readsCode before c after.head? :=
  within_inertSpansFrom rfl (by simp) (by omega) (by omega)

/-- Where no inert span is, the lexer stands in code. -/
theorem inCode_of_within_eq_false {before after : List Char} {c : Char}
    (h : within (inertSpans (before ++ c :: after)) (byteLength before) = false) :
    (Lexer.start.advance before (some c)).inCode = true := by
  have hc := c.utf8Size_pos
  rw [within_inertSpans (Nat.le_refl _) (by omega)] at h
  simp only [Lexer.readsCode, Bool.not_eq_false', Bool.and_eq_true] at h
  exact h.1

end SchemaModules.Lexical
