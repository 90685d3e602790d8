import SchemaModules.Proofs.Bytes
import SchemaModules.Text.Pattern

/-!
# Proofs: where a pattern occurs

Every occurrence that the search for a pattern lists is a place where the pattern is met, and its text
is what the pattern took there. The occurrences are listed in order and do not overlap. A place where
the pattern is met and that is not listed has a text around it that the pattern takes.
-/

namespace SchemaModules.Text

variable {α : Type} {p : Pattern α}

/-- `p` takes at least one character off the start of a text, and leaves the others as they are. -/
def Consumes (p : Pattern α) : Prop :=
  ∀ cs value rest, p cs = some (value, rest) → ∃ text, text ≠ [] ∧ cs = text ++ rest

/-- What was taken from a text to leave a back of it is the front. -/
theorem taken_append (text rest : List Char) : taken (text ++ rest) rest = text := by
  simp [taken]

/-- An occurrence that the search lists is met where it is said to be, after the characters skipped. -/
theorem exists_of_mem_occurrencesFrom (hp : Consumes p) {skip pos : Nat} {cs : List Char}
    {o : Occurrence α} (ho : o ∈ occurrencesFrom p skip pos cs) :
    ∃ before rest, cs = before ++ (o.text ++ rest) ∧ skip ≤ before.length ∧
      o.offset = pos + byteLength before ∧ o.text ≠ [] ∧
      p (o.text ++ rest) = some (o.value, rest) := by
  induction cs generalizing skip pos with
  | nil => simp [occurrencesFrom] at ho
  | cons c cs ih =>
    -- the search goes on in `cs`, after `c`
    have later : ∀ skip', o ∈ occurrencesFrom p skip' (pos + c.utf8Size) cs → skip ≤ skip' + 1 →
        ∃ before rest, c :: cs = before ++ (o.text ++ rest) ∧ skip ≤ before.length ∧
          o.offset = pos + byteLength before ∧ o.text ≠ [] ∧
          p (o.text ++ rest) = some (o.value, rest) := by
      intro skip' ho' hskip
      obtain ⟨before, rest, hcs, hlen, hoff, hne, hmet⟩ := ih ho'
      refine ⟨c :: before, rest, by rw [hcs]; rfl, ?_, ?_, hne, hmet⟩
      · simp only [List.length_cons]
        omega
      · rw [hoff, byteLength_cons, Nat.add_assoc]
    cases skip with
    | succ skip =>
      rw [occurrencesFrom] at ho
      exact later skip ho (Nat.le_refl _)
    | zero =>
      rw [occurrencesFrom] at ho
      split at ho
      · exact later 0 ho (Nat.zero_le _)
      · rename_i value rest hmet
        rcases List.mem_cons.mp ho with rfl | ho
        · obtain ⟨text, hne, hcs⟩ := hp _ _ _ hmet
          have htaken : taken (c :: cs) rest = text := by rw [hcs, taken_append]
          exact ⟨[], rest, by simp only [htaken, List.nil_append]; exact hcs, Nat.zero_le _, rfl,
            by simpa only [htaken] using hne, by simp only [htaken, ← hcs]; exact hmet⟩
        · exact later _ ho (Nat.zero_le _)

/-- No occurrence that the search lists starts in the characters skipped. -/
theorem le_offset_of_mem_occurrencesFrom (hp : Consumes p) {pos : Nat} {skipped cs : List Char}
    {o : Occurrence α} (ho : o ∈ occurrencesFrom p skipped.length pos (skipped ++ cs)) :
    pos + byteLength skipped ≤ o.offset := by
  obtain ⟨before, rest, hcs, hlen, hoff, -, -⟩ := exists_of_mem_occurrencesFrom hp ho
  rcases List.append_eq_append_iff.mp hcs with ⟨as, hbefore, -⟩ | ⟨bs, hskipped, -⟩
  · rw [hoff, hbefore, byteLength_append]
    omega
  · have hbs : bs = [] := by
      have := congrArg List.length hskipped
      rw [List.length_append] at this
      exact List.eq_nil_of_length_eq_zero (by omega)
    have hlen : o.offset = pos + byteLength skipped := by
      rw [hoff, hskipped, hbs, List.append_nil]
    exact Nat.le_of_eq hlen.symm

/-- The occurrences that the search lists stand in order, and each ends before the next starts. -/
theorem pairwise_occurrencesFrom (hp : Consumes p) (skip pos : Nat) (cs : List Char) :
    (occurrencesFrom p skip pos cs).Pairwise
      fun a b => a.offset + byteLength a.text ≤ b.offset := by
  induction cs generalizing skip pos with
  | nil => exact List.Pairwise.nil
  | cons c cs ih =>
    cases skip with
    | succ skip => exact ih skip _
    | zero =>
      rw [occurrencesFrom]
      split
      · exact ih 0 _
      · rename_i value rest hmet
        obtain ⟨text, hne, hcs⟩ := hp _ _ _ hmet
        obtain ⟨d, text, rfl⟩ := List.exists_cons_of_ne_nil hne
        obtain ⟨rfl, rfl⟩ : c = d ∧ cs = text ++ rest := by simpa using hcs
        refine List.pairwise_cons.mpr ⟨fun b hb => ?_, ih _ _⟩
        have hskip : (text ++ rest).length - rest.length = text.length := by simp
        rw [hskip] at hb
        have hle := le_offset_of_mem_occurrencesFrom hp hb
        simp only [hcs, taken_append, byteLength_cons]
        omega

/-- Two occurrences that the search lists are the same, or one ends before the other starts. -/
theorem disjoint_of_mem_occurrences (hp : Consumes p) {cs : List Char} {a b : Occurrence α}
    (ha : a ∈ occurrences p cs) (hb : b ∈ occurrences p cs) :
    a = b ∨ a.offset + byteLength a.text ≤ b.offset ∨ b.offset + byteLength b.text ≤ a.offset := by
  obtain ⟨i, hi, rfl⟩ := List.mem_iff_getElem.mp ha
  obtain ⟨j, hj, rfl⟩ := List.mem_iff_getElem.mp hb
  have hpairwise := List.pairwise_iff_getElem.mp (pairwise_occurrencesFrom hp 0 0 cs)
  rcases Nat.lt_trichotomy i j with hlt | rfl | hgt
  · exact Or.inr (Or.inl (hpairwise i j hi hj hlt))
  · exact Or.inl rfl
  · exact Or.inr (Or.inr (hpairwise j i hj hi hgt))

theorem exists_of_mem_occurrences (hp : Consumes p) {cs : List Char} {o : Occurrence α}
    (ho : o ∈ occurrences p cs) :
    ∃ before rest, cs = before ++ (o.text ++ rest) ∧ o.offset = byteLength before ∧
      o.text ≠ [] ∧ p (o.text ++ rest) = some (o.value, rest) := by
  obtain ⟨before, rest, hcs, -, hoff, hne, hmet⟩ := exists_of_mem_occurrencesFrom hp ho
  exact ⟨before, rest, hcs, by simpa using hoff, hne, hmet⟩

theorem pairwise_offset_occurrences (hp : Consumes p) (cs : List Char) :
    (occurrences p cs).Pairwise fun a b => a.offset < b.offset := by
  refine (pairwise_occurrencesFrom hp 0 0 cs).imp_of_mem fun {a b} ha _ hab => ?_
  obtain ⟨-, -, -, -, -, hne, -⟩ := exists_of_mem_occurrencesFrom hp ha
  have hpos : byteLength a.text ≠ 0 := fun h => hne (byteLength_eq_zero.mp h)
  omega

/-! ## Where a pattern is met -/

/-- `p` is met in `cs` where `o` starts, and takes the text and gives the value of `o`. -/
def MetAt (p : Pattern α) (cs : List Char) (o : Occurrence α) : Prop :=
  ∃ before rest, cs = before ++ (o.text ++ rest) ∧ o.offset = byteLength before ∧
    p (o.text ++ rest) = some (o.value, rest)

theorem metAt_of_mem_occurrences (hp : Consumes p) {cs : List Char} {o : Occurrence α}
    (ho : o ∈ occurrences p cs) : MetAt p cs o := by
  obtain ⟨before, rest, hcs, hoff, -, hmet⟩ := exists_of_mem_occurrences hp ho
  exact ⟨before, rest, hcs, hoff, hmet⟩

theorem MetAt.text_ne_nil (hp : Consumes p) {cs : List Char} {o : Occurrence α} (h : MetAt p cs o) :
    o.text ≠ [] := by
  obtain ⟨before, rest, -, -, hmet⟩ := h
  obtain ⟨text, hne, htext⟩ := hp _ _ _ hmet
  rwa [List.append_cancel_right htext]

/-- Where a text is cut at the byte where a pattern is met, the pattern is met in what comes after. -/
theorem MetAt.rest_eq {cs front back : List Char} {o : Occurrence α}
    (h : MetAt p cs o) (hcs : cs = front ++ back) (hoff : o.offset = byteLength front) :
    ∃ rest, back = o.text ++ rest ∧ p (o.text ++ rest) = some (o.value, rest) := by
  obtain ⟨before, rest, hcs', hbefore, hmet⟩ := h
  have hback := (append_inj_of_byteLength (hcs.symm.trans hcs') (by omega)).2
  exact ⟨rest, hback, hmet⟩

/-- At one place a pattern is met in one way. -/
theorem MetAt.eq_of_offset_eq {cs : List Char} {o o' : Occurrence α} (h : MetAt p cs o)
    (h' : MetAt p cs o') (hoff : o.offset = o'.offset) : o = o' := by
  obtain ⟨before', rest', hcs, hbefore, hmet'⟩ := h'
  obtain ⟨rest, hback, hmet⟩ := h.rest_eq hcs (hoff.trans hbefore)
  rw [← hback, hmet'] at hmet
  obtain ⟨hvalue, rfl⟩ := Prod.mk.inj (Option.some.inj hmet)
  have htext := List.append_cancel_right hback
  cases o
  cases o'
  simp only [Occurrence.mk.injEq]
  exact ⟨hoff, htext.symm, hvalue.symm⟩

/-- The pattern takes a text around the place between `before` and `after`: the characters `inside` up to
the place, and more from there on. -/
def TakesAround (p : Pattern α) (before after : List Char) : Prop :=
  ∃ front inside more rest value, before = front ++ inside ∧ after = more ++ rest ∧ inside ≠ [] ∧
    more ≠ [] ∧ p (inside ++ (more ++ rest)) = some (value, rest)

theorem TakesAround.cons {before after : List Char} (h : TakesAround p before after) (c : Char) :
    TakesAround p (c :: before) after := by
  obtain ⟨front, inside, more, rest, value, rfl, haround⟩ := h
  exact ⟨c :: front, inside, more, rest, value, rfl, haround⟩

/-- Where the pattern is met after the characters skipped, the search lists it, or the pattern takes a
text around the place. -/
theorem mem_occurrencesFrom_or_takesAround (hp : Consumes p) {skip : Nat} (pos : Nat)
    {before text rest : List Char} {value : α} (hskip : skip ≤ before.length)
    (hmet : p (text ++ rest) = some (value, rest)) :
    ⟨pos + byteLength before, text, value⟩ ∈ occurrencesFrom p skip pos (before ++ (text ++ rest)) ∨
      TakesAround p before (text ++ rest) := by
  induction before generalizing skip pos with
  | nil =>
    obtain rfl : skip = 0 := Nat.le_zero.mp hskip
    obtain ⟨text', hne, htext⟩ := hp _ _ _ hmet
    obtain rfl := List.append_cancel_right htext
    obtain ⟨c, text, rfl⟩ := List.exists_cons_of_ne_nil hne
    refine Or.inl ?_
    rw [List.nil_append, List.cons_append, occurrencesFrom, ← List.cons_append, hmet]
    dsimp only
    rw [taken_append]
    exact List.mem_cons_self ..
  | cons c before ih =>
    -- the search goes on after `c`
    have later : ∀ skip' ≤ before.length,
        (∀ o, o ∈ occurrencesFrom p skip' (pos + c.utf8Size) (before ++ (text ++ rest)) →
          o ∈ occurrencesFrom p skip pos (c :: before ++ (text ++ rest))) →
        (⟨pos + byteLength (c :: before), text, value⟩ ∈
            occurrencesFrom p skip pos (c :: before ++ (text ++ rest)) ∨
          TakesAround p (c :: before) (text ++ rest)) := by
      intro skip' hskip' hmem
      rcases ih (pos + c.utf8Size) hskip' with hlisted | haround
      · refine Or.inl (hmem _ ?_)
        rwa [byteLength_cons, ← Nat.add_assoc]
      · exact Or.inr (haround.cons c)
    cases skip with
    | succ skip =>
      refine later skip (Nat.le_of_succ_le_succ hskip) fun o ho => ?_
      rwa [List.cons_append, occurrencesFrom]
    | zero =>
      cases hhere : p (c :: before ++ (text ++ rest)) with
      | none =>
        refine later 0 (Nat.zero_le _) fun o ho => ?_
        rw [List.cons_append] at hhere ⊢
        rwa [occurrencesFrom, hhere]
      | some result =>
        obtain ⟨value', rest'⟩ := result
        obtain ⟨taken', hne, htaken⟩ := hp _ _ _ hhere
        obtain ⟨d, taken', rfl⟩ := List.exists_cons_of_ne_nil hne
        obtain ⟨rfl, hsplit⟩ := List.cons.inj htaken
        -- what is taken at `c` ends by the place, or goes on after it
        by_cases hlen : taken'.length ≤ before.length
        · refine later taken'.length hlen fun o ho => ?_
          rw [List.cons_append] at hhere ⊢
          rw [occurrencesFrom, hhere]
          refine List.mem_cons_of_mem _ ?_
          have hcount : (before ++ (text ++ rest)).length - rest'.length = taken'.length := by
            have := congrArg List.length hsplit
            simp only [List.append_eq, List.length_append] at this ⊢
            omega
          rwa [hcount]
        · rcases List.append_eq_append_iff.mp hsplit with ⟨more, hmore, htext⟩ | ⟨more, hmore, -⟩
          · refine Or.inr ⟨[], c :: before, more, rest', value', rfl, htext, by simp, ?_, ?_⟩
            · rintro rfl
              rw [hmore, List.append_nil] at hlen
              exact hlen (Nat.le_refl _)
            · rw [← htext]
              exact hhere
          · rw [hmore, List.length_append] at hlen
            omega

/-- Where the pattern is met, the search lists it, unless the pattern takes a text around the place. -/
theorem MetAt.mem_occurrences (hp : Consumes p) {cs : List Char} {o : Occurrence α} (h : MetAt p cs o)
    (hout : ∀ before rest, cs = before ++ (o.text ++ rest) → o.offset = byteLength before →
      p (o.text ++ rest) = some (o.value, rest) → ¬ TakesAround p before (o.text ++ rest)) :
    o ∈ occurrences p cs := by
  obtain ⟨before, rest, rfl, hoff, hmet⟩ := h
  have hlisted := (mem_occurrencesFrom_or_takesAround hp 0 (Nat.zero_le before.length) hmet).resolve_right
    (hout before rest rfl hoff hmet)
  rwa [Nat.zero_add, ← hoff] at hlisted

end SchemaModules.Text
