import Mathlib.Data.List.DropRight
import Mathlib.Data.List.TakeWhile
import SchemaModules.Proofs.Bytes
import SchemaModules.Proofs.Pieces
import SchemaModules.Text.Line

/-!
# Proofs: lines and where they start

A line is kept with the byte at which it starts, so that the lines of a text can be compared with what
else is known by its bytes. A text is its first line, a line feed and the lines after it, or a single
line, and the facts about lines are shown by induction on this.

The second part is about any list that is read from its end: what is to be skipped is skipped, and then
what is to be kept is kept for as long as it goes on.
-/

namespace SchemaModules.Text

/-- A line of a text. -/
structure Line where
  /-- The byte at which it starts. -/
  start : Nat
  /-- Its characters, without the line feed. -/
  text : List Char
  deriving Repr, DecidableEq

/-- The byte after the characters of the line, where its line feed stands. -/
def Line.stop (l : Line) : Nat := l.start + byteLength l.text

/-- Lines that stand one after the other from byte `pos` on, each with the byte at which it starts. -/
def placeLines : Nat → List (List Char) → List Line
  | _, [] => []
  | pos, text :: rest => ⟨pos, text⟩ :: placeLines (pos + byteLength text + 1) rest

/-- The lines of a text that starts at byte `pos`. -/
def linesFrom (pos : Nat) (cs : List Char) : List Line := placeLines pos (lines cs)

theorem not_mem_or_exists_feed (cs : List Char) :
    '\n' ∉ cs ∨ ∃ xs ys, cs = xs ++ '\n' :: ys ∧ '\n' ∉ xs := by
  rcases forall_or_exists_cut (fun c => c = '\n') cs with hall | ⟨xs, c, ys, rfl, hxs, hc⟩
  · exact Or.inl fun hmem => by simpa using hall _ hmem
  · obtain rfl : c = '\n' := of_decide_eq_true hc
    exact Or.inr ⟨xs, ys, rfl, fun hmem => by simpa using hxs _ hmem⟩

/-- A text is a single line, or a line and a text after its line feed. -/
@[elab_as_elim]
theorem induction_on_lines {motive : List Char → Prop} (single : ∀ cs, '\n' ∉ cs → motive cs)
    (feed : ∀ xs ys, '\n' ∉ xs → motive ys → motive (xs ++ '\n' :: ys)) (cs : List Char) :
    motive cs := by
  -- on the text behind a part of its first line
  suffices h : ∀ xs, '\n' ∉ xs → motive (xs ++ cs) from h [] List.not_mem_nil
  induction cs with
  | nil =>
    intro xs hxs
    rw [List.append_nil]
    exact single xs hxs
  | cons c cs ih =>
    intro xs hxs
    by_cases hc : c = '\n'
    · subst hc
      exact feed xs cs hxs (ih [] List.not_mem_nil)
    · have hlonger : '\n' ∉ xs ++ [c] :=
        List.not_mem_append hxs fun hmem => hc (List.mem_singleton.mp hmem).symm
      have hmotive := ih (xs ++ [c]) hlonger
      rwa [List.append_assoc, List.singleton_append] at hmotive

theorem eq_feed_of_getLast? {front : List Char} (hfront : ∀ c ∈ front.getLast?, c = '\n')
    (xs : List Char) : ∀ c ∈ (xs ++ '\n' :: front).getLast?, c = '\n' := by
  intro c hc
  rw [List.getLast?_append_cons] at hc
  cases front with
  | nil => simpa using hc.symm
  | cons d front => exact hfront c (by simpa using hc)

/-- A text ends with its last line, which starts where the text starts or after a line feed. -/
theorem exists_last_line (cs : List Char) :
    ∃ front room, cs = front ++ room ∧ (∀ c ∈ front.getLast?, c = '\n') ∧ '\n' ∉ room := by
  induction cs using induction_on_lines with
  | single cs h => exact ⟨[], cs, rfl, by simp, h⟩
  | feed xs ys _ ih =>
    obtain ⟨front, room, rfl, hfront, hroom⟩ := ih
    exact ⟨xs ++ '\n' :: front, room, by simp, eq_feed_of_getLast? hfront xs, hroom⟩

section

variable {pos : Nat} {cs : List Char} {l : Line}

theorem map_text_linesFrom (pos : Nat) (cs : List Char) : (linesFrom pos cs).map Line.text = lines cs := by
  unfold linesFrom
  induction lines cs generalizing pos with
  | nil => rfl
  | cons text rest ih => rw [placeLines, List.map_cons, ih]

theorem lines_of_not_mem (h : '\n' ∉ cs) : lines cs = [cs] := by
  refine pieces_of_forall ?_
  intro c hc
  simpa using fun heq : c = '\n' => h (heq ▸ hc)

theorem lines_append_cons (xs ys : List Char) : lines (xs ++ '\n' :: ys) = lines xs ++ lines ys :=
  pieces_append_cons (by decide) xs ys

theorem linesFrom_of_not_mem (h : '\n' ∉ cs) : linesFrom pos cs = [⟨pos, cs⟩] := by
  rw [linesFrom, lines_of_not_mem h]
  rfl

theorem linesFrom_cons (h : '\n' ∉ cs) (rest : List Char) :
    linesFrom pos (cs ++ '\n' :: rest) = ⟨pos, cs⟩ :: linesFrom (pos + byteLength cs + 1) rest := by
  rw [linesFrom, lines_append_cons, lines_of_not_mem h]
  rfl

theorem byteLength_append_feed (xs ys : List Char) :
    byteLength (xs ++ '\n' :: ys) = byteLength xs + 1 + byteLength ys := by
  rw [byteLength_append, byteLength_cons, ← Nat.add_assoc]
  rfl

theorem linesFrom_append_cons (pos : Nat) (xs ys : List Char) :
    linesFrom pos (xs ++ '\n' :: ys) = linesFrom pos xs ++ linesFrom (pos + byteLength xs + 1) ys := by
  induction xs using induction_on_lines generalizing pos with
  | single xs h => rw [linesFrom_cons h, linesFrom_of_not_mem h, List.singleton_append]
  | feed xs zs h ih =>
    have hlen : pos + byteLength xs + 1 + byteLength zs + 1 =
        pos + byteLength (xs ++ '\n' :: zs) + 1 := by
      rw [byteLength_append_feed]
      omega
    rw [List.append_assoc, List.cons_append, linesFrom_cons h, ih, linesFrom_cons h, hlen,
      List.cons_append]

/-- A line stands in its text between two line feeds, or the ends of the text. -/
theorem exists_of_mem_linesFrom (h : l ∈ linesFrom pos cs) :
    ∃ before after, cs = before ++ (l.text ++ after) ∧ l.start = pos + byteLength before ∧
      '\n' ∉ l.text ∧ (∀ c ∈ before.getLast?, c = '\n') ∧ ∀ c ∈ after.head?, c = '\n' := by
  induction cs using induction_on_lines generalizing pos with
  | single cs hcs =>
    rw [linesFrom_of_not_mem hcs, List.mem_singleton] at h
    subst h
    exact ⟨[], [], by simp, rfl, hcs, by simp, by simp⟩
  | feed xs ys hxs ih =>
    rw [linesFrom_cons hxs] at h
    rcases List.mem_cons.mp h with rfl | h
    · exact ⟨[], '\n' :: ys, rfl, rfl, hxs, by simp, by simp⟩
    · obtain ⟨before, after, rfl, hstart, htext, hbefore, hafter⟩ := ih h
      refine ⟨xs ++ '\n' :: before, after, by simp, ?_, htext, eq_feed_of_getLast? hbefore xs, hafter⟩
      rw [hstart, byteLength_append_feed]
      omega

theorem bounds_of_mem_linesFrom (h : l ∈ linesFrom pos cs) :
    pos ≤ l.start ∧ l.stop ≤ pos + byteLength cs := by
  obtain ⟨before, after, rfl, hstart, -⟩ := exists_of_mem_linesFrom h
  rw [Line.stop, byteLength_append, byteLength_append]
  omega

/-- A line ends before the next one starts. -/
theorem pairwise_linesFrom (pos : Nat) (cs : List Char) :
    (linesFrom pos cs).Pairwise fun a b => a.stop < b.start := by
  induction cs using induction_on_lines generalizing pos with
  | single cs h =>
    rw [linesFrom_of_not_mem h]
    exact List.pairwise_singleton _ _
  | feed xs ys h ih =>
    rw [linesFrom_cons h]
    refine List.pairwise_cons.mpr ⟨?_, ih _⟩
    intro l hl
    have hle := (bounds_of_mem_linesFrom hl).1
    show pos + byteLength xs < l.start
    omega

/-- A character that is no line feed stands on one of the lines. -/
theorem exists_line_of_append_cons {c : Char} (hc : c ≠ '\n') (pos : Nat) (xs ys : List Char) :
    ∃ before l after front back, linesFrom pos (xs ++ c :: ys) = before ++ l :: after ∧
      l.text = front ++ c :: back ∧ l.start + byteLength front = pos + byteLength xs := by
  induction xs using induction_on_lines generalizing pos with
  | single xs hxs =>
    -- the line of the character goes on to the first line feed behind it
    have hline : ∀ zs, '\n' ∉ zs → '\n' ∉ xs ++ c :: zs := by
      intro zs hzs
      refine List.not_mem_append hxs ?_
      rw [List.mem_cons, not_or]
      exact ⟨Ne.symm hc, hzs⟩
    rcases not_mem_or_exists_feed ys with hys | ⟨ys, zs, rfl, hys⟩
    · exact ⟨[], _, [], xs, ys, linesFrom_of_not_mem (hline ys hys), rfl, rfl⟩
    · have hlines : linesFrom pos ((xs ++ c :: ys) ++ '\n' :: zs) = ⟨pos, xs ++ c :: ys⟩ :: _ :=
        linesFrom_cons (hline ys hys) zs
      rw [List.append_assoc, List.cons_append] at hlines
      exact ⟨[], _, _, xs, ys, hlines, rfl, rfl⟩
  | feed xs zs hxs ih =>
    obtain ⟨before, l, after, front, back, hlines, htext, hstart⟩ := ih (pos + byteLength xs + 1)
    refine ⟨⟨pos, xs⟩ :: before, l, after, front, back, ?_, htext, ?_⟩
    · rw [List.append_assoc, List.cons_append, linesFrom_cons hxs, hlines, List.cons_append]
    · rw [hstart, byteLength_append_feed]
      omega

/-- Lines that end before a byte of the first line are none. -/
theorem takeWhile_linesFrom_append {room : List Char} (hroom : '\n' ∉ room) (pos : Nat)
    (back : List Char) :
    (linesFrom pos (room ++ back)).takeWhile (fun l => l.stop < pos + byteLength room) = [] := by
  rcases not_mem_or_exists_feed back with hback | ⟨xs, ys, rfl, hxs⟩
  · rw [linesFrom_of_not_mem (List.not_mem_append hroom hback), List.takeWhile_cons_of_neg]
    simp [Line.stop]
  · rw [← List.append_assoc, linesFrom_cons (List.not_mem_append hroom hxs), List.takeWhile_cons_of_neg]
    simp [Line.stop]

/-- Where a text ends on a line, no line starts behind its end before the next line feed. -/
theorem start_lt_of_not_mem {head tail : List Char} (hhead : head ≠ [])
    (hlast : head.getLast? ≠ some '\n') (htail : '\n' ∉ tail) (h : l ∈ linesFrom 0 (head ++ tail)) :
    l.start < byteLength head := by
  obtain ⟨before, after, hsplit, hstart, -, hbefore, -⟩ := exists_of_mem_linesFrom h
  rw [hstart, Nat.zero_add]
  by_contra hle
  obtain ⟨more, rfl, hmore⟩ := exists_between_of_byteLength_le hsplit (Nat.not_lt.mp hle)
  rcases List.eq_nil_or_concat more with rfl | ⟨more, c, rfl⟩
  · rw [List.append_nil] at hbefore
    have hsome := List.getLast?_eq_some_getLast hhead
    exact hlast (hbefore _ hsome ▸ hsome)
  · have hfeed : c = '\n' := hbefore c (by simp)
    subst hfeed
    exact htail (hmore ▸ by simp)

end

/-! ## Reading from the end -/

section

variable {α β : Type} {skip keep keep' : α → Bool} {xs ys front back : List α} {x : α}

/-- Where the order keeps what stops the dropping, nothing behind it is dropped. -/
theorem eq_false_of_mem_dropWhile {r : α → α → Prop} {p : α → Bool} (hsorted : xs.Pairwise r)
    (hr : ∀ a b, r a b → p a = false → p b = false) (h : x ∈ xs.dropWhile p) : p x = false := by
  induction xs with
  | nil => exact absurd h List.not_mem_nil
  | cons a xs ih =>
    obtain ⟨hfirst, hsorted⟩ := List.pairwise_cons.mp hsorted
    cases ha : p a with
    | true =>
      rw [List.dropWhile_cons_of_pos ha] at h
      exact ih hsorted h
    | false =>
      rw [List.dropWhile_cons_of_neg (by simp [ha])] at h
      rcases List.mem_cons.mp h with rfl | h
      · exact ha
      · exact hr a x (hfirst x h) ha

/-- What is to be kept at the end of a list, behind which there is only what is to be skipped. -/
def trailingRun (skip keep : α → Bool) (xs : List α) : List α := (xs.rdropWhile skip).rtakeWhile keep

theorem trailingRun_concat_of_skip (h : skip x = true) :
    trailingRun skip keep (xs ++ [x]) = trailingRun skip keep xs := by
  rw [trailingRun, List.rdropWhile_concat_pos _ _ _ h]
  rfl

theorem trailingRun_concat_of_not_skip (h : skip x = false) :
    trailingRun skip keep (xs ++ [x]) = if keep x then xs.rtakeWhile keep ++ [x] else [] := by
  rw [trailingRun, List.rdropWhile_concat_neg _ _ _ (by simp [h]), List.rtakeWhile_concat]

theorem mem_of_mem_trailingRun (h : x ∈ trailingRun skip keep xs) : x ∈ xs ∧ keep x = true :=
  ⟨(List.rdropWhile_prefix _ _).subset ((List.rtakeWhile_suffix _ _).subset h),
    List.mem_rtakeWhile_imp h⟩

/-- The run is what the list has before things that are to be skipped. -/
theorem exists_append_trailingRun (skip keep : α → Bool) (xs : List α) :
    ∃ front back, xs = front ++ (trailingRun skip keep xs ++ back) ∧ ∀ x ∈ back, skip x = true := by
  refine ⟨(xs.rdropWhile skip).rdropWhile keep, xs.rtakeWhile skip, ?_, ?_⟩
  · rw [trailingRun, ← List.append_assoc, List.rdropWhile_append_rtakeWhile,
      List.rdropWhile_append_rtakeWhile]
  · intro x hx
    exact List.mem_rtakeWhile_imp hx

theorem trailingRun_map (f : β → α) (xs : List β) : trailingRun skip keep (xs.map f) =
    (trailingRun (fun x => skip (f x)) (fun x => keep (f x)) xs).map f := by
  simp only [trailingRun, List.rdropWhile, List.rtakeWhile, List.reverse_reverse, ← List.map_reverse,
    List.dropWhile_map, List.takeWhile_map]
  rfl

/-- It does not matter what else would be kept, as long as the run is. -/
theorem trailingRun_eq_of_forall_mem (hle : ∀ x ∈ xs, keep' x = true → keep x = true)
    (hrun : ∀ x ∈ trailingRun skip keep xs, keep' x = true) :
    trailingRun skip keep' xs = trailingRun skip keep xs := by
  have htake : ∀ ys : List α, (∀ x ∈ ys, keep' x = true → keep x = true) →
      (∀ x ∈ ys.rtakeWhile keep, keep' x = true) → ys.rtakeWhile keep' = ys.rtakeWhile keep := by
    intro ys
    induction ys using List.reverseRecOn with
    | nil => simp
    | append_singleton ys y ih =>
      intro hle hrun
      rw [List.rtakeWhile_concat, List.rtakeWhile_concat]
      cases hy : keep y with
      | false =>
        have hy' : keep' y = false := by
          rw [← Bool.not_eq_true]
          intro hkeep
          simp [hle y (by simp) hkeep] at hy
        simp [hy']
      | true =>
        rw [List.rtakeWhile_concat_pos _ _ _ hy] at hrun
        have hy' := hrun y (by simp)
        simp only [hy', if_true]
        rw [ih (fun x hx => hle x (by simp [hx])) fun x hx => hrun x (by simp [hx])]
  refine htake _ ?_ hrun
  intro x hx
  exact hle x ((List.rdropWhile_prefix _ _).subset hx)

/-- Behind something that is not kept, the run does not depend on what comes before it. -/
theorem rtakeWhile_append_of_not_keep (h : keep x = false) :
    ((front ++ [x]) ++ ys).rtakeWhile keep = ys.rtakeWhile keep := by
  induction ys using List.reverseRecOn with
  | nil => simp [h]
  | append_singleton ys y ih =>
    rw [← List.append_assoc, List.rtakeWhile_concat, List.rtakeWhile_concat, ih]

theorem trailingRun_eq_nil (hskip : skip x = false) (hkeep : ∀ y ∈ x :: back, keep y = false) :
    trailingRun skip keep (front ++ x :: back) = [] := by
  induction back using List.reverseRecOn with
  | nil =>
    rw [trailingRun_concat_of_not_skip hskip, hkeep x (by simp)]
    rfl
  | append_singleton back y ih =>
    have hback : ∀ z ∈ x :: back, keep z = false := by
      intro z hz
      exact hkeep z (List.mem_append_left [y] hz)
    rw [← List.cons_append, ← List.append_assoc]
    cases hy : skip y with
    | true => rw [trailingRun_concat_of_skip hy, ih hback]
    | false =>
      rw [trailingRun_concat_of_not_skip hy, hkeep y (by simp)]
      rfl

/-- The run ends in front of something that is neither skipped nor kept, if from there on to `ys`
nothing is kept. -/
theorem trailingRun_append_of_barrier (hskip : skip x = false)
    (hkeep : ∀ y ∈ x :: back, keep y = false) (ys : List α) :
    trailingRun skip keep ((front ++ x :: back) ++ ys) = trailingRun skip keep ys := by
  induction ys using List.reverseRecOn with
  | nil =>
    rw [List.append_nil, trailingRun_eq_nil hskip hkeep]
    rfl
  | append_singleton ys y ih =>
    rw [← List.append_assoc]
    cases hy : skip y with
    | true => rw [trailingRun_concat_of_skip hy, trailingRun_concat_of_skip hy, ih]
    | false =>
      have hlast := List.dropLast_append_getLast (List.cons_ne_nil x back)
      have hnot := hkeep _ (List.getLast_mem (List.cons_ne_nil x back))
      rw [trailingRun_concat_of_not_skip hy, trailingRun_concat_of_not_skip hy, ← hlast,
        ← List.append_assoc, rtakeWhile_append_of_not_keep hnot]

end

end SchemaModules.Text
