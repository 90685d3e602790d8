/-!
# Cutting texts

A text is cut at every character of a class into the pieces between them. The pieces may be empty, and
there is one more of them than there are cuts.
-/

namespace SchemaModules.Text

/-- The pieces of a text between the characters that `cut` picks out. -/
def pieces (cut : Char → Bool) : List Char → List (List Char)
  | [] => [[]]
  | c :: cs =>
    if cut c then [] :: pieces cut cs
    else match pieces cut cs with
      | [] => [[c]]
      | piece :: rest => (c :: piece) :: rest

/-- The pieces of a text that are not empty: its longest runs of characters that are not cut at. -/
def runs (cut : Char → Bool) (cs : List Char) : List (List Char) :=
  (pieces cut cs).filter fun piece => !piece.isEmpty

/-- There is one more piece than there are cuts. -/
theorem length_pieces (cut : Char → Bool) (cs : List Char) :
    (pieces cut cs).length = cs.countP cut + 1 := by
  induction cs with
  | nil => rfl
  | cons c cs ih =>
    by_cases h : cut c = true
    · simp [pieces, h, ih]
    · cases hp : pieces cut cs with
      | nil => simp [hp] at ih
      | cons piece rest =>
        rw [hp] at ih
        simpa [pieces, h, hp] using ih

/-- No piece holds a character that is cut at. -/
theorem cut_of_mem_pieces {cut : Char → Bool} {cs piece : List Char}
    (h : piece ∈ pieces cut cs) : ∀ c ∈ piece, cut c = false := by
  induction cs generalizing piece with
  | nil =>
    simp only [pieces, List.mem_singleton] at h
    simp [h]
  | cons c cs ih =>
    by_cases hc : cut c = true
    · simp only [pieces, hc, if_true, List.mem_cons] at h
      rcases h with rfl | h
      · simp
      · exact ih h
    · have hc' : cut c = false := by simpa using hc
      have hne : pieces cut cs ≠ [] := by
        intro hnil
        have := length_pieces cut cs
        simp [hnil] at this
      obtain ⟨first, rest, hp⟩ := List.exists_cons_of_ne_nil hne
      rw [pieces, if_neg hc, hp] at h
      rcases List.mem_cons.mp h with rfl | h
      · intro d hd
        rcases List.mem_cons.mp hd with rfl | hd
        · exact hc'
        · exact ih (by simp [hp]) d hd
      · exact ih (by simp [hp, h])

end SchemaModules.Text
