import SchemaModules.Proofs.Bodies
import SchemaModules.Proofs.Portable

/-!
# Proofs: where declarations stand in a body

A body is laid out from parts, and a symbol is placed at the byte where its part starts. Each
declaration starts a line, and the line ends behind it. What stands between the declarations holds no
code, so what is found in the body's code starts in a declaration.
-/

namespace SchemaModules

open Text Lexical Declaration Catalog

namespace Part

/-! ## Places -/

/-- The symbols that the parts declare, each with the byte at which its part starts when the first part
starts at byte `pos`. -/
def placed : Nat → List Part → List (Nat × Symbol)
  | _, [] => []
  | pos, filler text :: rest => placed (pos + byteLength text) rest
  | pos, declared s :: rest => (pos, s) :: placed (pos + byteLength s.bodyText.toList) rest

theorem map_snd_placed (pos : Nat) (parts : List Part) :
    (placed pos parts).map Prod.snd = parts.filterMap symbol? := by
  induction parts generalizing pos with
  | nil => rfl
  | cons part parts ih =>
    cases part with
    | filler text => exact ih _
    | declared s => exact congrArg (s :: ·) (ih _)

theorem declared_mem_iff {s : Symbol} {parts : List Part} :
    declared s ∈ parts ↔ s ∈ parts.filterMap symbol? := by
  rw [List.mem_filterMap]
  constructor
  · exact fun hs => ⟨_, hs, rfl⟩
  · rintro ⟨part, hpart, hsymbol⟩
    cases part with
    | filler text => simp [symbol?] at hsymbol
    | declared t =>
      obtain rfl := Option.some.inj hsymbol
      exact hpart

theorem mem_placed_iff {pos n : Nat} {s : Symbol} {parts : List Part} :
    (n, s) ∈ placed pos parts ↔ ∃ front back, parts = front ++ declared s :: back ∧
      n = pos + byteLength (front.flatMap text) := by
  induction parts generalizing pos with
  | nil => simp [placed]
  | cons part parts ih =>
    -- what is placed in the other parts is placed after this one
    have later : (n, s) ∈ placed (pos + byteLength part.text) parts ↔
        ∃ front back, part :: parts = (part :: front) ++ declared s :: back ∧
          n = pos + byteLength ((part :: front).flatMap text) := by
      rw [ih]
      simp only [List.cons_append, List.cons.injEq, true_and, List.flatMap_cons, byteLength_append,
        Nat.add_assoc]
    constructor
    · intro hmem
      have hcases : part = declared s ∧ n = pos ∨ (n, s) ∈ placed (pos + byteLength part.text) parts := by
        cases part with
        | filler text => exact Or.inr hmem
        | declared t =>
          rcases List.mem_cons.mp hmem with heq | hmem
          · obtain ⟨rfl, rfl⟩ := Prod.mk.inj heq
            exact Or.inl ⟨rfl, rfl⟩
          · exact Or.inr hmem
      rcases hcases with ⟨rfl, rfl⟩ | hmem
      · exact ⟨[], parts, rfl, rfl⟩
      · obtain ⟨front, back, hparts, hn⟩ := later.mp hmem
        exact ⟨part :: front, back, hparts, hn⟩
    · rintro ⟨front, back, hparts, hn⟩
      cases front with
      | nil =>
        obtain ⟨rfl, rfl⟩ := List.cons.inj hparts
        rw [List.flatMap_nil, byteLength_nil, Nat.add_zero] at hn
        rw [hn]
        exact List.mem_cons_self ..
      | cons first front =>
        obtain rfl : part = first := (List.cons.inj hparts).1
        have hmem := later.mpr ⟨front, back, hparts, hn⟩
        cases part with
        | filler text => exact hmem
        | declared t => exact List.mem_cons_of_mem _ hmem

/-- Each symbol ends before the next one starts. -/
theorem pairwise_placed (pos : Nat) (parts : List Part) :
    (placed pos parts).Pairwise fun a b => a.1 + byteLength a.2.bodyText.toList ≤ b.1 := by
  induction parts generalizing pos with
  | nil => exact .nil
  | cons part parts ih =>
    cases part with
    | filler text => exact ih _
    | declared s =>
      refine .cons (fun b hb => ?_) (ih _)
      obtain ⟨front, back, -, hn⟩ := mem_placed_iff.mp (show (b.1, b.2) ∈ _ from hb)
      dsimp only
      omega

/-- A character of a text that is made of parts stands in one of them. -/
theorem exists_part {parts : List Part} {before after : List Char} {c : Char}
    (h : parts.flatMap text = before ++ c :: after) : ∃ front part back inside rest,
      parts = front ++ part :: back ∧ part.text = inside ++ c :: rest ∧
      before = front.flatMap text ++ inside ∧ after = rest ++ back.flatMap text := by
  induction parts generalizing before with
  | nil => simp at h
  | cons part parts ih =>
    rw [List.flatMap_cons] at h
    have later : ∀ before', before = part.text ++ before' → parts.flatMap text = before' ++ c :: after →
        ∃ front part' back inside rest, part :: parts = front ++ part' :: back ∧
          part'.text = inside ++ c :: rest ∧ before = front.flatMap text ++ inside ∧
          after = rest ++ back.flatMap text := by
      intro before' hbefore hrest
      obtain ⟨front, part', back, inside, rest, rfl, htext, rfl, hafter⟩ := ih hrest
      exact ⟨part :: front, part', back, inside, rest, rfl, htext,
        by rw [hbefore, List.flatMap_cons, List.append_assoc], hafter⟩
    rcases List.append_eq_append_iff.mp h with ⟨more, hmore, hrest⟩ | ⟨more, hmore, hrest⟩
    · exact later more hmore hrest
    · cases more with
      | nil => exact later [] (by rw [hmore, List.append_nil, List.append_nil]) hrest.symm
      | cons d more =>
        obtain ⟨rfl, hafter⟩ := List.cons.inj hrest
        exact ⟨[], part, parts, before, more, rfl, hmore, by simp, hafter⟩

/-! ## Lines -/

/-- The parts declare each symbol on lines of its own. -/
def OnLines (parts : List Part) : Prop :=
  ∀ front s back, parts = front ++ declared s :: back →
    (∀ c ∈ (front.flatMap text).getLast?, c = '\n') ∧ ∀ c ∈ (back.flatMap text).head?, c = '\n'

end Part

/-- What stands above a declaration ends with a line. -/
theorem Symbol.getLast?_preamble (keepComments : Bool) (s : Symbol) :
    ∀ c ∈ (s.preamble keepComments).toList.getLast?, c = '\n' := by
  intro c hc
  unfold preamble at hc
  split at hc
  · split at hc
    · rw [String.toList_append, List.getLast?_append] at hc
      exact (Option.some.inj hc).symm
    · simp at hc
  · simp at hc

/-- The declaration of the symbol can stand anywhere in code at the start of a line. -/
def Symbol.Portable : Symbol → Prop
  | entity e => ∃ header d, PortableEntity e header d
  | derived a => ∃ st, PortableAlias a st

/-- A portable declaration starts with the first letter of a word. -/
theorem Symbol.Portable.exists_cons {s : Symbol} (h : s.Portable) :
    ∃ tail, s.bodyText.toList = 'e' :: tail := by
  cases s with
  | entity e =>
    obtain ⟨header, d, hd⟩ := h
    obtain ⟨tail, htail⟩ := List.head?_eq_some_iff.mp hd.head?_lead
    exact ⟨tail ++ (d.call ++ d.term), by rw [bodyText, hd.body_eq, DeclarationParts.body, htail]; rfl⟩
  | derived a =>
    obtain ⟨st, hst⟩ := h
    obtain ⟨rest, hmet⟩ := hst.met
    obtain ⟨⟨tail, htail, -⟩, -⟩ := aliasStatement_eq_some hmet
    rw [← List.cons_append] at htail
    exact ⟨tail, List.append_cancel_right htail⟩

namespace Part

/-- An empty line stands between two symbols, and what stands above a symbol ends with a line. -/
theorem onLines_ofSymbols (keepComments : Bool) (symbols : List Symbol) :
    OnLines (ofSymbols keepComments symbols) := by
  induction symbols with
  | nil =>
    intro front s back h
    simp [ofSymbols] at h
  | cons s symbols ih =>
    have hpreamble := s.getLast?_preamble keepComments
    intro front u back h
    cases symbols with
    | nil =>
      rw [ofSymbols] at h
      rcases front with _ | ⟨_, _ | ⟨_, front⟩⟩
      · simp at h
      · obtain ⟨rfl, -, rfl⟩ : _ ∧ _ ∧ [] = back := by simpa using h
        refine ⟨?_, by simp⟩
        simpa [text] using hpreamble
      · simp at h
    | cons t rest =>
      rw [ofSymbols] at h
      rcases front with _ | ⟨_, _ | ⟨_, _ | ⟨_, front⟩⟩⟩
      · simp at h
      · obtain ⟨rfl, -, rfl⟩ : _ ∧ _ ∧ _ = back := by simpa using h
        refine ⟨?_, by simp [text]⟩
        simpa [text] using hpreamble
      · simp at h
      · obtain ⟨rfl, rfl, rfl, hrest⟩ : _ ∧ _ ∧ _ ∧ _ = front ++ declared u :: back := by
          simpa using h
        obtain ⟨hfront, hback⟩ := ih front u back hrest
        refine ⟨fun c hc => ?_, hback⟩
        rw [List.flatMap_cons, List.flatMap_cons, List.flatMap_cons, ← List.append_assoc,
          ← List.append_assoc, List.getLast?_append] at hc
        cases hlast : (front.flatMap text).getLast? with
        | some d =>
          rw [hlast] at hc
          rw [← Option.some.inj hc]
          exact hfront d hlast
        | none =>
          rw [hlast, List.getLast?_append] at hc
          exact (Option.some.inj hc).symm

/-! ## Code -/

section Settled

variable {parts front back : List Part} {before after : List Char} {c : Char}

/-- Up to one of the parts, the text of the parts leaves the lexer in code. -/
theorem inCode_front (h : ∀ part ∈ parts, part.Settled) {part : Part}
    (hparts : parts = front ++ part :: back) (next : Option Char) :
    (Lexer.start.advance (front.flatMap text) next).inCode = true :=
  inCode_advance_flatMap (fun _ hpart => h _ (hparts ▸ List.mem_append_left _ hpart)) rfl next

theorem flatMap_text_eq {part : Part} (hparts : parts = front ++ part :: back) :
    parts.flatMap text = front.flatMap text ++ (part.text ++ back.flatMap text) := by
  rw [hparts, List.flatMap_append, List.flatMap_cons]

/-- What the filler has beside blanks is inert. -/
theorem within_filler (h : ∀ part ∈ parts, part.Settled) {cs : List Char}
    (hparts : parts = front ++ filler cs :: back) (hcs : cs = before ++ c :: after)
    (hc : isBlank c = false) :
    within (inertSpans (parts.flatMap text)) (byteLength (front.flatMap text ++ before)) = true := by
  have hsettled : (filler cs).Settled := h _ (hparts ▸ List.mem_append_right _ (List.mem_cons_self ..))
  have hfiller : Filler (before ++ c :: after) := hcs ▸ hsettled
  have hsplit : parts.flatMap text =
      (front.flatMap text ++ before) ++ c :: (after ++ back.flatMap text) := by
    rw [flatMap_text_eq hparts, text, hcs]
    simp only [List.append_assoc, List.cons_append]
  have hcomment := (hfiller _ (inCode_front h hparts (before.head?.or (some c)))
    (back.flatMap text).head?).blank_or_comment.resolve_left (by simp [hc])
  rw [Lexer.advance_append, ← List.head?_append] at hcomment
  -- after the character the lexer is in a comment, so the character is not read as code
  have hout : ((Lexer.start.advance (front.flatMap text ++ before) (some c)).step c
      (after ++ back.flatMap text).head?).inCode = false := by
    rw [Lexer.advance_append, Lexer.inCode]
    simp only [Lexer.advance, List.head?_cons, Option.some_or, List.head?_nil, Option.none_or] at hcomment
    rw [hcomment]
    rfl
  rw [hsplit, within_inertSpans (Nat.le_refl _) (Nat.lt_add_of_pos_right c.utf8Size_pos)]
  unfold Lexer.readsCode
  dsimp only
  rw [hout, Bool.and_false, Bool.not_false]

/-- A character of a declaration is inert as if the declaration stood alone. -/
theorem within_declared (h : ∀ part ∈ parts, part.Settled) {s : Symbol}
    (hparts : parts = front ++ declared s :: back) (hs : s.bodyText.toList = before ++ c :: after) :
    within (inertSpans (parts.flatMap text)) (byteLength (front.flatMap text ++ before)) =
      !Lexer.start.readsCode before c after.head? := by
  have hsettled : (declared s).Settled := h _ (hparts ▸ List.mem_append_right _ (List.mem_cons_self ..))
  rw [flatMap_text_eq hparts, byteLength_append]
  exact within_inertSpans_of_standalone hsettled (inCode_front h hparts _) hs (Nat.le_refl _)
    (Nat.lt_add_of_pos_right c.utf8Size_pos)

/-- What starts in the code of the text starts in a declaration, if it is not a blank. -/
theorem exists_declared_of_live (h : ∀ part ∈ parts, part.Settled)
    (htext : parts.flatMap text = before ++ c :: after) (hc : isBlank c = false)
    (hlive : within (inertSpans (parts.flatMap text)) (byteLength before) = false) :
    ∃ front s back inside rest, parts = front ++ declared s :: back ∧
      s.bodyText.toList = inside ++ c :: rest ∧ before = front.flatMap text ++ inside ∧
      after = rest ++ back.flatMap text ∧ Lexer.start.readsCode inside c rest.head? = true := by
  obtain ⟨front, part, back, inside, rest, hparts, hpart, rfl, rfl⟩ := exists_part htext
  cases part with
  | filler cs =>
    rw [within_filler h hparts hpart hc] at hlive
    exact Bool.noConfusion hlive
  | declared s =>
    rw [within_declared h hparts hpart, Bool.not_eq_false'] at hlive
    exact ⟨front, s, back, inside, rest, hparts, hpart, rfl, rfl, hlive⟩

end Settled

/-! ## Parts that can stand anywhere -/

/-- Each part of the text stands as it can stand anywhere in code. -/
structure Laid (parts : List Part) : Prop where
  /-- The declarations are standalone, and the filler is. -/
  settled : ∀ part ∈ parts, part.Settled
  /-- The declarations have lines of their own. -/
  onLines : OnLines parts
  /-- They are portable. -/
  portable : ∀ s, declared s ∈ parts → s.Portable

section Laid

variable {parts front back : List Part} {part : Part} {c : Char}

theorem Laid.portable_of_eq (h : Laid parts) {s : Symbol} (hparts : parts = front ++ declared s :: back) :
    s.Portable :=
  h.portable s (hparts ▸ List.mem_append_right _ (List.mem_cons_self ..))

/-- A declaration starts in code. -/
theorem Laid.within_start (h : Laid parts) {s : Symbol} (hparts : parts = front ++ declared s :: back) :
    within (inertSpans (parts.flatMap text)) (byteLength (front.flatMap text)) = false := by
  obtain ⟨tail, htail⟩ := (h.portable_of_eq hparts).exists_cons
  have hsplit : s.bodyText.toList = [] ++ 'e' :: tail := htail
  have hstart := within_declared h.settled hparts hsplit
  rwa [List.append_nil, Lexer.readsCode_neutral rfl (by simp) (by decide)] at hstart

/-- The first character after a part that is not a blank starts a declaration, or is not neutral. -/
theorem Laid.eq_of_head?_blanks (h : Laid parts) (hparts : parts = front ++ part :: back)
    (hc : c ∈ (blanks (back.flatMap text)).head?) (hneutral : isNeutral c = true) : c = 'e' := by
  obtain ⟨room, hroom, hblank, hstops⟩ :=
    blanks_eq_iff.mp (rfl : blanks (back.flatMap text) = blanks (back.flatMap text))
  obtain ⟨more, hmore⟩ := List.head?_eq_some_iff.mp hc
  rw [hmore] at hroom
  have hcBlank : isBlank c = false := hstops c hc
  have htext : parts.flatMap text = ((front ++ [part]).flatMap text ++ room) ++ c :: more := by
    rw [flatMap_text_eq hparts, hroom]
    simp
  -- the lexer is in code after the part, and the blanks leave it there
  have hlive : within (inertSpans (parts.flatMap text))
      (byteLength ((front ++ [part]).flatMap text ++ room)) = false := by
    have hsettled : ∀ part' ∈ front ++ [part], part'.Settled := by
      intro part' hpart'
      refine h.settled part' ?_
      rw [hparts, ← List.singleton_append, ← List.append_assoc]
      exact List.mem_append_left _ hpart'
    rw [htext, within_inertSpans (Nat.le_refl _) (Nat.lt_add_of_pos_right c.utf8Size_pos),
      Lexer.readsCode_append, Lexer.readsCode_neutral (inCode_advance_flatMap hsettled rfl _)
        (neutral_of_allBlank hblank) hneutral, Bool.not_true]
  obtain ⟨front', part', back', inside, rest, hback, hpart', hroom', -⟩ := exists_part hroom
  have hparts' : parts = ((front ++ [part]) ++ front') ++ part' :: back' := by
    rw [hparts, hback]
    simp
  cases part' with
  | filler cs =>
    have hinert := within_filler h.settled hparts' hpart' hcBlank
    rw [List.flatMap_append, List.append_assoc, ← hroom', hlive] at hinert
    exact Bool.noConfusion hinert
  | declared s =>
    obtain ⟨tail, hs⟩ := (h.portable_of_eq hparts').exists_cons
    rw [text, hs] at hpart'
    cases inside with
    | nil => exact (List.cons.inj hpart').1.symm
    | cons d inside =>
      obtain rfl : 'e' = d := (List.cons.inj hpart').1
      exact absurd (allBlank_iff.mp hblank 'e' (by rw [hroom']; simp)) (by decide)

end Laid

end Part

end SchemaModules
