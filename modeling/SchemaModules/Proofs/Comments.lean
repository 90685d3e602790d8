import SchemaModules.Declaration.Banner
import SchemaModules.Proofs.Pieces
import SchemaModules.Proofs.Statements

/-!
# Proofs: comments and room between declarations

What stands between the declarations of a module holds no code: read from code on, each of its
characters is a blank or belongs to a comment that ends with its line, and the lexer is left in code.
-/

namespace SchemaModules

open Text Lexical Declaration

namespace Lexical

/-- Read from the lexer on, each character of the text is a blank or in a line comment, and the lexer
is left in code. -/
def Lexer.Idle : Lexer → List Char → Option Char → Prop
  | lx, [], _ => lx.inCode = true
  | lx, c :: rest, next =>
    (isBlank c = true ∨ (lx.step c (rest.head?.or next)).mode = .lineComment) ∧
      (lx.step c (rest.head?.or next)).Idle rest next

namespace Lexer

variable {lx : Lexer} {next : Option Char}

theorem Idle.inCode_advance {cs : List Char} (h : lx.Idle cs next) :
    (lx.advance cs next).inCode = true := by
  induction cs generalizing lx with
  | nil => exact h
  | cons c cs ih => exact ih h.2

theorem Idle.blank_or_comment {before after : List Char} {c : Char}
    (h : lx.Idle (before ++ c :: after) next) : isBlank c = true ∨
      (lx.advance (before ++ [c]) (after.head?.or next)).mode = .lineComment := by
  induction before generalizing lx with
  | nil => exact h.1
  | cons d before ih =>
    have hhead : (before ++ [c]).head?.or (after.head?.or next) =
        (before ++ c :: after).head?.or next := by
      cases before with
      | nil => rfl
      | cons e before => rfl
    rw [List.cons_append, advance, hhead]
    exact ih h.2

/-- A part is idle before another if the other is idle wherever the lexer is in code. -/
theorem Idle.append {xs ys : List Char} (h : lx.Idle xs (ys.head?.or next))
    (hys : ∀ ly : Lexer, ly.inCode = true → ly.Idle ys next) : lx.Idle (xs ++ ys) next := by
  induction xs generalizing lx with
  | nil => exact hys lx h
  | cons c xs ih =>
    rw [List.cons_append, Idle, head?_append_or]
    exact ⟨h.1, ih h.2⟩

theorem idle_blanks (hcode : lx.inCode = true) {cs : List Char} (hcs : ∀ c ∈ cs, isBlank c = true) :
    lx.Idle cs next := by
  induction cs with
  | nil => exact hcode
  | cons c cs ih =>
    have hc := hcs c (List.mem_cons_self ..)
    rw [Idle, step_neutral hcode (isNeutral_of_isBlank hc)]
    exact ⟨Or.inl hc, ih fun d hd => hcs d (List.mem_cons_of_mem _ hd)⟩

/-- In a line comment the rest of the line is idle, its line feed included. -/
theorem idle_lineComment (hmode : lx.mode = .lineComment) (hpaired : lx.paired = false)
    {cs : List Char} (hcs : '\n' ∉ cs) : lx.Idle (cs ++ ['\n']) next := by
  have hstep : ∀ c o, c ≠ '\n' → lx.step c o = lx := by
    intro c o hc
    simp [step, hmode, hpaired, hc]
  induction cs with
  | nil =>
    refine ⟨Or.inl (by decide), ?_⟩
    show (lx.step '\n' _).inCode = true
    simp [step, hmode, hpaired, inCode]
  | cons c cs ih =>
    have hc : c ≠ '\n' := (List.ne_of_not_mem_cons hcs).symm
    rw [List.cons_append, Idle, hstep c _ hc]
    exact ⟨Or.inr hmode, ih (List.not_mem_of_not_mem_cons hcs)⟩

end Lexer

/-- Read from code on, the text holds nothing but blanks and line comments. -/
def Filler (text : List Char) : Prop :=
  ∀ lx : Lexer, lx.inCode = true → ∀ next : Option Char, lx.Idle text next

theorem Filler.append {xs ys : List Char} (hx : Filler xs) (hy : Filler ys) : Filler (xs ++ ys) :=
  fun lx hcode next => (hx lx hcode _).append fun ly hcode' => hy ly hcode' next

theorem filler_blanks {cs : List Char} (h : allBlank cs = true) : Filler cs :=
  fun _ hcode _ => Lexer.idle_blanks hcode (List.all_eq_true.mp h)

theorem Filler.flatMap {lines : List (List Char)} (h : ∀ l ∈ lines, Filler (l ++ ['\n'])) :
    Filler (lines.flatMap fun l => l ++ ['\n']) := by
  induction lines with
  | nil => exact filler_blanks rfl
  | cons l lines ih =>
    rw [List.flatMap_cons]
    exact (h l (List.mem_cons_self ..)).append (ih fun l' hl' => h l' (List.mem_cons_of_mem _ hl'))

theorem filler_comment {room rest : List Char} (hroom : allBlank room = true)
    (hrest : '\n' ∉ rest) : Filler (room ++ '/' :: '/' :: rest ++ ['\n']) := by
  rw [List.append_assoc]
  refine (filler_blanks hroom).append ?_
  intro lx hcode next
  obtain ⟨hmode, hpaired⟩ := Lexer.inCode_iff.mp hcode
  have hne : '/' ≠ backtick := by decide
  have hstep : lx.step '/' (some '/') = { lx with mode := .lineComment } := by
    simp [Lexer.step, Lexer.stepCode, hmode, hpaired, hne]
  rw [List.cons_append, Lexer.Idle]
  show (_ ∨ (lx.step '/' (some '/')).mode = _) ∧ (lx.step '/' (some '/')).Idle _ next
  rw [hstep]
  have hslash : '\n' ∉ '/' :: rest := List.not_mem_cons_of_ne_of_not_mem (by decide) hrest
  refine ⟨Or.inr rfl, Lexer.idle_lineComment rfl ?_ hslash⟩
  exact hpaired

end Lexical

namespace Text

/-- Trimming the end of a text stops at a character that is not a blank. -/
theorem trimEnd_append_cons (xs : List Char) {c : Char} (hc : isBlank c = false) (ys : List Char) :
    trimEnd (xs ++ c :: ys) = xs ++ c :: trimEnd ys := by
  unfold trimEnd
  rw [List.reverse_append, List.reverse_cons, List.append_assoc, List.dropWhile_append]
  split
  · rename_i hempty
    have hnil : ys.reverse.dropWhile isBlank = [] := by simpa using hempty
    rw [hnil, List.singleton_append, List.dropWhile_cons_of_neg (by simp [hc])]
    simp
  · simp

theorem trimEnd_subset (cs : List Char) : trimEnd cs ⊆ cs := by
  intro c hc
  have hsub := (List.dropWhile_suffix isBlank (l := cs.reverse)).subset
  exact List.mem_reverse.mp (hsub (List.mem_reverse.mp hc))

end Text

namespace Declaration

/-- A comment line stays one when it is trimmed. -/
theorem exists_of_isCommentLine {line : List Char} (h : isCommentLine line = true) :
    ∃ room rest, trimEnd line = room ++ '/' :: '/' :: rest ∧ allBlank room = true := by
  have hparts : line.takeWhile isBlank ++ trimStart line = line := List.takeWhile_append_dropWhile
  have hroom : allBlank (line.takeWhile isBlank) = true := List.all_takeWhile
  obtain ⟨rest, hrest⟩ := List.isPrefixOf_iff_prefix.mp h
  have hblank : isBlank '/' = false := by decide
  generalize line.takeWhile isBlank = room at hparts hroom
  refine ⟨room, trimEnd rest, ?_, hroom⟩
  have hsplit : line = (room ++ ['/']) ++ '/' :: rest := by
    rw [← hparts, ← hrest]
    simp
  rw [hsplit, trimEnd_append_cons _ hblank]
  simp

theorem filler_of_mem_trailingComments {gap line : List Char} (h : line ∈ trailingComments gap) :
    Filler (trimEnd line ++ ['\n']) := by
  unfold trailingComments at h
  rw [List.mem_reverse] at h
  have hcomment : isCommentLine line = true := List.all_eq_true.mp List.all_takeWhile line h
  have hline : line ∈ lines gap := by
    have hafter := (List.takeWhile_sublist isCommentLine).subset h
    exact List.mem_reverse.mp ((List.dropWhile_sublist allBlank).subset hafter)
  obtain ⟨room, rest, htrim, hroom⟩ := exists_of_isCommentLine hcomment
  have hfeed : '\n' ∉ rest := by
    intro hmem
    have hin : '\n' ∈ trimEnd line := by
      rw [htrim]
      simp [hmem]
    have hcut := cut_of_mem_pieces hline '\n' (trimEnd_subset line hin)
    simp at hcut
  rw [htrim]
  exact filler_comment hroom hfeed

theorem intercalate_append_sep {sep : List Char} {ls : List (List Char)} (h : ls ≠ []) :
    List.intercalate sep ls ++ sep = ls.flatMap fun l => l ++ sep := by
  induction ls with
  | nil => exact absurd rfl h
  | cons l ls ih =>
    rw [List.flatMap_cons]
    cases ls with
    | nil => simp
    | cons l' ls =>
      rw [List.intercalate_cons_cons, List.append_assoc, List.append_assoc, ih (by simp),
        List.append_assoc]

/-- A banner is filler together with the empty line below it. -/
theorem filler_banner {source banner : List Char} {boundary start : Nat}
    (h : banner? source boundary start = some banner) : Filler (banner ++ ['\n', '\n']) := by
  unfold banner? at h
  split at h
  · simp at h
  · rename_i gap hgap
    dsimp only at h
    split at h
    · simp at h
    · rename_i hne
      obtain rfl := Option.some.inj h
      have hlines : (trailingComments gap).map trimEnd ≠ [] := by simpa using hne
      have hsplit : List.intercalate ['\n'] ((trailingComments gap).map trimEnd) ++ ['\n', '\n'] =
          (((trailingComments gap).map trimEnd).flatMap fun l => l ++ ['\n']) ++ ['\n'] := by
        rw [← intercalate_append_sep hlines]
        simp
      rw [hsplit]
      refine (Filler.flatMap fun l hl => ?_).append (filler_blanks (by decide))
      obtain ⟨line, hline, rfl⟩ := List.mem_map.mp hl
      exact filler_of_mem_trailingComments hline

end Declaration

end SchemaModules
