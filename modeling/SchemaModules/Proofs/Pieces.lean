import Mathlib.Data.List.Basic
import SchemaModules.Text.Split
import SchemaModules.Text.Whole

/-!
# Proofs: the pieces of a text

A text that is put together around a cut has the pieces of its two parts, and everything about pieces
follows from this. The runs of a text are what occurs whole in it.
-/

namespace SchemaModules.Text

variable {cut : Char → Bool}

theorem pieces_ne_nil (cut : Char → Bool) (cs : List Char) : pieces cut cs ≠ [] := by
  intro h
  have hlen := length_pieces cut cs
  rw [h, List.length_nil] at hlen
  omega

/-- The pieces of two parts around a cut are those of the first part and those of the second. -/
theorem pieces_append_cons {c : Char} (hc : cut c = true) (xs ys : List Char) :
    pieces cut (xs ++ c :: ys) = pieces cut xs ++ pieces cut ys := by
  induction xs with
  | nil => simp [pieces, hc]
  | cons d xs ih =>
    rw [List.cons_append, pieces, pieces, ih]
    split
    · rw [List.cons_append]
    · obtain ⟨piece, rest, hpieces⟩ := List.exists_cons_of_ne_nil (pieces_ne_nil cut xs)
      rw [hpieces]
      rfl

theorem pieces_of_forall {cs : List Char} (h : ∀ c ∈ cs, cut c = false) :
    pieces cut cs = [cs] := by
  induction cs with
  | nil => rfl
  | cons c cs ih =>
    have hc := h c (List.mem_cons_self ..)
    rw [pieces, ih fun d hd => h d (List.mem_cons_of_mem _ hd), hc]
    rfl

theorem forall_or_exists_cut (cut : Char → Bool) (cs : List Char) :
    (∀ c ∈ cs, cut c = false) ∨
      ∃ xs c ys, cs = xs ++ c :: ys ∧ (∀ d ∈ xs, cut d = false) ∧ cut c = true := by
  induction cs with
  | nil => exact Or.inl (by simp)
  | cons c cs ih =>
    by_cases hc : cut c = true
    · exact Or.inr ⟨[], c, cs, rfl, by simp, hc⟩
    · have hc' : cut c = false := by simpa using hc
      rcases ih with hall | ⟨xs, d, ys, rfl, hxs, hd⟩
      · exact Or.inl (List.forall_mem_cons.mpr ⟨hc', hall⟩)
      · exact Or.inr ⟨c :: xs, d, ys, rfl, List.forall_mem_cons.mpr ⟨hc', hxs⟩, hd⟩

/-- A piece stands between two cuts, or the ends of the text. -/
theorem exists_of_mem_pieces {piece : List Char} (n : Nat) {cs : List Char} (hn : cs.length ≤ n)
    (h : piece ∈ pieces cut cs) :
    ∃ before after, cs = before ++ piece ++ after ∧
      (∀ c ∈ before.getLast?, cut c = true) ∧ ∀ c ∈ after.head?, cut c = true := by
  -- on the length of the text, since the search for the piece goes on after the first cut
  induction n generalizing cs with
  | zero =>
    obtain rfl : cs = [] := List.eq_nil_of_length_eq_zero (by omega)
    obtain rfl : piece = [] := by simpa [pieces] using h
    exact ⟨[], [], rfl, by simp, by simp⟩
  | succ n ih =>
    rcases forall_or_exists_cut cut cs with hall | ⟨xs, c, ys, rfl, hxs, hc⟩
    · rw [pieces_of_forall hall, List.mem_singleton] at h
      exact ⟨[], [], by simp [h], by simp, by simp⟩
    · rw [pieces_append_cons hc, pieces_of_forall hxs, List.singleton_append] at h
      rcases List.mem_cons.mp h with rfl | h
      · exact ⟨[], c :: ys, by simp, by simp, by simpa using hc⟩
      · rw [List.length_append, List.length_cons] at hn
        obtain ⟨before, after, rfl, hbefore, hafter⟩ := ih (by omega) h
        refine ⟨xs ++ c :: before, after, by simp, fun d hd => ?_, hafter⟩
        cases hlast : before.getLast? with
        | none =>
          rw [List.getLast?_eq_none_iff.mp hlast] at hd
          obtain rfl : c = d := by simpa using hd
          exact hc
        | some e =>
          obtain rfl : e = d := by simpa [List.getLast?_cons, hlast] using hd
          exact hbefore e (by rw [hlast]; rfl)

/-- What stands between two cuts, or the ends of the text, and holds no cut is a piece. -/
theorem mem_pieces {before piece after : List Char} (hpiece : ∀ c ∈ piece, cut c = false)
    (hbefore : ∀ c ∈ before.getLast?, cut c = true) (hafter : ∀ c ∈ after.head?, cut c = true) :
    piece ∈ pieces cut (before ++ piece ++ after) := by
  have hback : piece ∈ pieces cut (piece ++ after) := by
    cases after with
    | nil => simp [pieces_of_forall hpiece]
    | cons c after =>
      rw [pieces_append_cons (hafter c rfl), pieces_of_forall hpiece]
      simp
  rw [List.append_assoc]
  rcases List.eq_nil_or_concat before with rfl | ⟨front, c, rfl⟩
  · exact hback
  · rw [List.concat_eq_append, List.append_assoc, List.singleton_append,
      pieces_append_cons (hbefore c (by simp))]
    exact List.mem_append_right _ hback

/-- The runs of two parts around a cut are those of the first part and those of the second. -/
theorem runs_append_cons {c : Char} (hc : cut c = true) (xs ys : List Char) :
    runs cut (xs ++ c :: ys) = runs cut xs ++ runs cut ys := by
  unfold runs
  rw [pieces_append_cons hc, List.filter_append]

theorem runs_of_forall {cs : List Char} (h : ∀ c ∈ cs, cut c = false) (hne : cs ≠ []) :
    runs cut cs = [cs] := by
  unfold runs
  rw [pieces_of_forall h]
  simpa using hne

/-- The runs of a text are what occurs whole in it. -/
theorem mem_runs_iff {p : Char → Bool} {name text : List Char} :
    name ∈ runs (fun c => !p c) text ↔
      name ≠ [] ∧ (∀ c ∈ name, p c = true) ∧ OccursWhole p name text := by
  have hmem : name ∈ runs (fun c => !p c) text ↔
      name ∈ pieces (fun c => !p c) text ∧ name ≠ [] := by
    simp [runs]
  rw [hmem]
  constructor
  · rintro ⟨hpiece, hne⟩
    obtain ⟨before, after, htext, hbefore, hafter⟩ := exists_of_mem_pieces _ (Nat.le_refl _) hpiece
    refine ⟨hne, fun c hc => by simpa using cut_of_mem_pieces hpiece c hc, before, after, htext,
      fun c hc => by simpa using hbefore c hc, fun c hc => by simpa using hafter c hc⟩
  · rintro ⟨hne, hname, before, after, rfl, hbefore, hafter⟩
    refine ⟨mem_pieces (fun c hc => ?_) (fun c hc => ?_) (fun c hc => ?_), hne⟩
    · simp [hname c hc]
    · simp [hbefore c hc]
    · simp [hafter c hc]

end SchemaModules.Text
