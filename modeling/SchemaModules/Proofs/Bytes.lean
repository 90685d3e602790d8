import SchemaModules.Text.Bytes

/-!
# Proofs: cutting a text at byte offsets

A byte offset that lies between two characters cuts a text in one way only, so two ways of writing a
text as a front and a back can be compared by the lengths of the fronts.
-/

namespace SchemaModules.Text

theorem byteLength_eq_zero {cs : List Char} : byteLength cs = 0 ↔ cs = [] := by
  cases cs with
  | nil => simp
  | cons c cs =>
    have hc := c.utf8Size_pos
    simp only [byteLength_cons, reduceCtorEq, iff_false]
    omega

/-- Two fronts of equal length are equal. -/
theorem append_inj_of_byteLength {xs ys xs' ys' : List Char} (h : xs ++ ys = xs' ++ ys')
    (hlen : byteLength xs = byteLength xs') : xs = xs' ∧ ys = ys' := by
  have hfront := takeBytes_append_byteLength xs ys
  have hfront' := takeBytes_append_byteLength xs' ys'
  rw [← h, ← hlen] at hfront'
  exact ⟨hfront.1.symm.trans hfront'.1, hfront.2.symm.trans hfront'.2⟩

/-- A longer front goes on where a shorter one ends. -/
theorem exists_between_of_byteLength_le {xs ys xs' ys' : List Char} (h : xs ++ ys = xs' ++ ys')
    (hle : byteLength xs ≤ byteLength xs') : ∃ zs, xs' = xs ++ zs ∧ ys = zs ++ ys' := by
  rcases List.append_eq_append_iff.mp h with hlonger | ⟨bs, hxs, hys'⟩
  · exact hlonger
  · have hbs : bs = [] := by
      rw [hxs, byteLength_append] at hle
      exact byteLength_eq_zero.mp (by omega)
    subst hbs
    exact ⟨[], by simpa using hxs.symm, by simpa using hys'.symm⟩

@[simp] theorem dropBytes_append (xs ys : List Char) : dropBytes (byteLength xs) (xs ++ ys) = ys :=
  (takeBytes_append_byteLength xs ys).2

@[simp] theorem takeBytes_append (xs ys : List Char) : takeBytes (byteLength xs) (xs ++ ys) = xs :=
  (takeBytes_append_byteLength xs ys).1

theorem slice_zero (cs : List Char) (n : Nat) : slice cs 0 n = takeBytes n cs :=
  congrArg (takeBytes n) (dropBytes_append [] cs)

/-- The slice of a text between two of its cuts is what stands between them. -/
theorem slice_append {front middle back : List Char} {start stop : Nat}
    (hstart : start = byteLength front) (hstop : stop = byteLength front + byteLength middle) :
    slice (front ++ (middle ++ back)) start stop = middle := by
  subst hstart hstop
  rw [slice, dropBytes_append, Nat.add_sub_cancel_left, takeBytes_append]

/-! ## Aligned offsets -/

theorem aligned_append (front back : List Char) : Aligned (front ++ back) (byteLength front) := by
  rw [Aligned, takeBytes_append]

/-- An aligned offset is the length of a front. -/
theorem aligned_iff {cs : List Char} {n : Nat} :
    Aligned cs n ↔ ∃ front back, cs = front ++ back ∧ n = byteLength front := by
  constructor
  · intro h
    exact ⟨takeBytes n cs, dropBytes n cs, (takeBytes_append_dropBytes n cs).symm, h.symm⟩
  · rintro ⟨front, back, rfl, rfl⟩
    exact aligned_append front back

theorem aligned_zero (cs : List Char) : Aligned cs 0 := aligned_append [] cs

theorem Aligned.le_byteLength {cs : List Char} {n : Nat} (h : Aligned cs n) : n ≤ byteLength cs := by
  obtain ⟨front, back, rfl, rfl⟩ := aligned_iff.mp h
  rw [byteLength_append]
  exact Nat.le_add_right ..

/-- What stands between two aligned offsets is a part of the text. -/
theorem Aligned.exists_between {cs : List Char} {start stop : Nat} (hstart : Aligned cs start)
    (hstop : Aligned cs stop) (hle : start ≤ stop) : ∃ front middle back,
      cs = front ++ (middle ++ back) ∧ start = byteLength front ∧
        stop = byteLength front + byteLength middle := by
  obtain ⟨front, rest, hfront, rfl⟩ := aligned_iff.mp hstart
  obtain ⟨upper, back, hupper, rfl⟩ := aligned_iff.mp hstop
  obtain ⟨middle, rfl, rfl⟩ := exists_between_of_byteLength_le (hfront.symm.trans hupper) hle
  exact ⟨front, middle, back, hfront, rfl, byteLength_append ..⟩

end SchemaModules.Text
