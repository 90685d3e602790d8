import SchemaModules.Lexical.Grammar
import SchemaModules.Proofs.Reading

/-!
# Proofs: nested code is read as its grammar says

The lexer keeps no more than its mode and one count of braces for each open hole. Still it reads code in
which templates and holes nest to any depth just as the grammar marks it, and is left as it was.

The proof is by induction on the grammar. In each region the lexer is in one mode. What a brace or a hole
adds to the counts is taken off again by the brace that closes it, so the holes around a text play no part
in how it is read.
-/

namespace SchemaModules.Lexical

namespace Lexer

/-- From `lx` on, the text is read with just these marks, where `next` comes after it, and the lexer is
`after` then. -/
structure Reads (lx after : Lexer) (text : List (Char × Bool)) (next : Option Char) : Prop where
  /-- Each character is read as it is marked. -/
  readings_eq : lx.readingsBefore (text.map Prod.fst) next = text
  /-- The lexer ends up as `after`. -/
  advance_eq : lx.advance (text.map Prod.fst) next = after

namespace Reads

variable {lx mid after : Lexer} {next : Option Char}

theorem nil : Reads lx lx [] next := ⟨rfl, rfl⟩

theorem cons {c : Char} {isCode : Bool} {rest : List (Char × Bool)}
    (hstep : lx.step c ((rest.map Prod.fst).head?.or next) = mid)
    (hcode : (lx.inCode && mid.inCode) = isCode) (hrest : Reads mid after rest next) :
    Reads lx after ((c, isCode) :: rest) next := by
  constructor
  · rw [List.map_cons, readingsBefore, hstep, hcode, hrest.readings_eq]
  · rw [List.map_cons, advance, hstep, hrest.advance_eq]

theorem append {xs ys : List (Char × Bool)} (hx : Reads lx mid xs ((ys.map Prod.fst).head?.or next))
    (hy : Reads mid after ys next) : Reads lx after (xs ++ ys) next := by
  constructor
  · rw [List.map_append, readingsBefore_append, hx.readings_eq, hx.advance_eq, hy.readings_eq]
  · rw [List.map_append, advance_append, hx.advance_eq, hy.advance_eq]

end Reads

/-! ## Strings and comments -/

section

variable {holes : List Nat} {next : Option Char}

theorem map_fst_inert (cs : List Char) : (inert cs).map Prod.fst = cs := by
  rw [inert, List.map_map]
  exact List.map_id cs

theorem inert_append (xs ys : List Char) : inert (xs ++ ys) = inert xs ++ inert ys := List.map_append

theorem reads_stringBody (holes : List Nat) {quote : Char} (hquote : quote ≠ backtick) {body : List Char}
    (h : StringBody quote body) :
    Reads ⟨.quoted quote, holes, false⟩ ⟨.quoted quote, holes, false⟩ (inert body) next := by
  induction h with
  | nil => exact .nil
  | char ne_quote ne_escape _ ih =>
    refine .cons ?_ rfl ih
    simp [step, stepQuoted, hquote, ne_quote, ne_escape]
  | escape _ ih => exact .cons rfl rfl (.cons rfl rfl ih)

/-- A string of code is read as such, from its first quote to its second. -/
theorem reads_string {quote : Char} (hquote : quote = '"' ∨ quote = '\'') {body : List Char}
    (h : StringBody quote body) :
    Reads ⟨.code, holes, false⟩ ⟨.code, holes, false⟩ (inert (quote :: body ++ [quote])) next := by
  have hne : quote ≠ backtick := by rcases hquote with rfl | rfl <;> decide
  have hescape : quote ≠ '\\' := by rcases hquote with rfl | rfl <;> decide
  rw [inert_append]
  refine .append (.cons ?_ rfl (reads_stringBody holes hne h)) (.cons ?_ rfl .nil)
  · rcases hquote with rfl | rfl <;> rfl
  · simp [step, stepQuoted, hne, hescape]

theorem reads_lineBody {body : List Char} (h : '\n' ∉ body) :
    Reads ⟨.lineComment, holes, false⟩ ⟨.lineComment, holes, false⟩ (inert body) next := by
  induction body with
  | nil => exact .nil
  | cons c body ih =>
    refine .cons ?_ rfl (ih (List.not_mem_of_not_mem_cons h))
    simp [step, (List.ne_of_not_mem_cons h).symm]

/-- A line comment of code is read as such, up to its line feed. -/
theorem reads_lineComment {body : List Char} (h : '\n' ∉ body) :
    Reads ⟨.code, holes, false⟩ ⟨.code, holes, false⟩ (inert ('/' :: '/' :: body ++ ['\n'])) next := by
  rw [inert_append]
  exact .append (.cons rfl rfl (.cons rfl rfl (reads_lineBody h))) (.cons rfl rfl .nil)

theorem reads_blockBody {body : List Char} (h : ¬ ['*', '/'] <:+: body) (hnext : next ≠ some '/') :
    Reads ⟨.blockComment, holes, false⟩ ⟨.blockComment, holes, false⟩ (inert body) next := by
  induction body with
  | nil => exact .nil
  | cons c body ih =>
    have hopen : ¬ (c = '*' ∧ ((inert body).map Prod.fst).head?.or next = some '/') := by
      rintro ⟨rfl, hslash⟩
      rw [map_fst_inert] at hslash
      cases body with
      | nil => exact hnext hslash
      | cons d body =>
        obtain rfl := Option.some.inj hslash
        exact h ⟨[], body, rfl⟩
    exact .cons (if_neg hopen) rfl (ih fun hin => h (List.infix_cons hin))

/-- A block comment of code is read as such, up to the first star that a slash follows: the star that
opens it is not taken for that one. -/
theorem reads_blockComment {body : List Char} (h : ¬ ['*', '/'] <:+: body) :
    Reads ⟨.code, holes, false⟩ ⟨.code, holes, false⟩ (inert ('/' :: '*' :: body ++ ['*', '/'])) next := by
  rw [inert_append]
  refine .append (.cons rfl rfl (.cons rfl rfl (reads_blockBody h ?_))) (.cons rfl rfl (.cons rfl rfl .nil))
  exact fun heq => absurd (Option.some.inj heq) (by decide)

end

end Lexer

/-! ## Regions -/

namespace Region

/-- The mode in which the lexer reads a region. -/
def mode : Region → Mode
  | .code => .code
  | .template => .quoted backtick

/-- The lexer in a region, with these holes open around it. -/
def lexer (r : Region) (holes : List Nat) : Lexer := ⟨r.mode, holes, false⟩

/-- What may come after a text of the region: no character that makes a comment with a slash at the end of
code, and after the inside of a template nothing but the end of the template. -/
def Allows : Region → List (Char × Bool) → Option Char → Prop
  | .code, text, next => text.getLast? = some ('/', true) → next ≠ some '/' ∧ next ≠ some '*'
  | .template, _, next => next = some backtick

theorem Allows.of_append {r : Region} {xs ys : List (Char × Bool)} {next : Option Char}
    (h : r.Allows (xs ++ ys) next) : r.Allows ys next := by
  cases r with
  | template => exact h
  | code =>
    intro hlast
    exact h (by rw [List.getLast?_append, hlast, Option.some_or])

theorem Allows.of_cons {r : Region} {x : Char × Bool} {ys : List (Char × Bool)} {next : Option Char}
    (h : r.Allows (x :: ys) next) : r.Allows ys next :=
  @of_append r [x] ys next h

end Region

namespace WellFormed

open Lexer Region

variable {holes : List Nat} {next : Option Char}

/-- A plain character changes nothing in code, unless it starts a comment with what follows. -/
theorem step_plain {c : Char} (hc : IsPlain c)
    (hnext : c = '/' → next ≠ some '/' ∧ next ≠ some '*') :
    (Region.code.lexer holes).step c next = Region.code.lexer holes := by
  obtain ⟨hdouble, hsingle, hbacktick, hopen, hclose⟩ := hc
  have hline : ¬ (c = '/' ∧ next = some '/') := fun h => (hnext h.1).1 h.2
  have hblock : ¬ (c = '/' ∧ next = some '*') := fun h => (hnext h.1).2 h.2
  simp [Region.lexer, Region.mode, step, stepCode, hdouble, hsingle, hbacktick, hline, hblock, hopen, hclose]

/-- What a brace of code opens in the counts, the brace that closes it takes back. -/
theorem exists_step_braces (holes : List Nat) : ∃ opened, ∀ next,
    (Region.code.lexer holes).step '{' next = Region.code.lexer opened ∧
      (Region.code.lexer opened).step '}' next = Region.code.lexer holes := by
  cases holes with
  | nil => exact ⟨[], fun next => ⟨rfl, rfl⟩⟩
  | cons count outer => exact ⟨(count + 1) :: outer, fun next => ⟨rfl, rfl⟩⟩

theorem step_char {c : Char} (hclose : c ≠ backtick) (hescape : c ≠ '\\')
    (hnext : c = '$' → next ≠ some '{') :
    (Region.template.lexer holes).step c next = Region.template.lexer holes := by
  have hhole : ¬ (c = '$' ∧ next = some '{') := fun h => hnext h.1 h.2
  simp [Region.lexer, Region.mode, step, stepQuoted, hclose, hescape, hhole]

/-- A text of a region is read as the grammar marks it, whatever holes are open around it. -/
theorem reads {r : Region} {text : List (Char × Bool)} (h : WellFormed r text)
    (hnext : r.Allows text next) : Reads (r.lexer holes) (r.lexer holes) text next := by
  induction h generalizing holes next with
  | nil => exact .nil
  | @plain c rest hplain no_comment _ ih =>
    refine .cons (step_plain hplain ?_) rfl (ih hnext.of_cons)
    rintro rfl
    cases rest with
    | nil => exact hnext rfl
    | cons d rest =>
      have hne := no_comment rfl d rfl
      exact ⟨fun heq => hne.1 (Option.some.inj heq), fun heq => hne.2 (Option.some.inj heq)⟩
  | group _ _ ih_inside ih =>
    obtain ⟨opened, hbraces⟩ := exists_step_braces holes
    refine .cons (hbraces _).1 rfl (.append (ih_inside ?_) (.cons (hbraces _).2 rfl (ih ?_)))
    · exact fun _ => ⟨by simp, by simp⟩
    · exact (hnext.of_append).of_cons
  | quoted quote_mem inside _ ih =>
    exact .append (reads_string quote_mem inside) (ih hnext.of_append)
  | lineComment one_line _ ih => exact .append (reads_lineComment one_line) (ih hnext.of_append)
  | blockComment closes_once _ ih =>
    exact .append (reads_blockComment closes_once) (ih hnext.of_append)
  | template _ _ ih_inside ih =>
    refine .cons rfl rfl (.append (ih_inside rfl) (.cons rfl rfl (ih ?_)))
    exact (hnext.of_append).of_cons
  | @char c rest ne_close ne_escape no_hole _ ih =>
    refine .cons (step_char ne_close ne_escape ?_) rfl (ih hnext)
    rintro rfl
    cases rest with
    | nil =>
      obtain rfl : next = some backtick := hnext
      exact fun heq => absurd (Option.some.inj heq) (by decide)
    | cons d rest => exact fun heq => no_hole rfl d rfl (Option.some.inj heq)
  | escape _ ih => exact .cons rfl rfl (.cons rfl rfl (ih hnext))
  | hole _ _ ih_inside ih =>
    refine .cons rfl rfl (.cons rfl rfl (.append (@ih_inside (0 :: holes) _ ?_) (.cons rfl rfl (ih hnext))))
    exact fun _ => ⟨by simp, by simp⟩

/-- A text has one reading as code: the grammar is not ambiguous. -/
theorem eq_of_map_fst_eq {text text' : List (Char × Bool)} (h : WellFormed .code text)
    (h' : WellFormed .code text') (heq : text'.map Prod.fst = text.map Prod.fst) : text' = text := by
  have hend : ∀ t, Region.code.Allows t none := fun _ _ => ⟨by simp, by simp⟩
  have hread : Reads (Region.code.lexer []) (Region.code.lexer []) text none := h.reads (hend text)
  have hread' : Reads (Region.code.lexer []) (Region.code.lexer []) text' none := h'.reads (hend text')
  rw [← hread.readings_eq, ← hread'.readings_eq, heq]

end WellFormed

/-- Well-formed code is read as the grammar marks it, and the grammar marks it in one way only. It leaves the
lexer as it was, whatever holes are open around it and whatever comes after it, as long as this makes no
comment with a slash at its end. -/
theorem readings_of_wellFormed {text : List (Char × Bool)} (h : WellFormed .code text) {lx : Lexer}
    (hcode : lx.inCode = true) {rest : List Char}
    (hrest : text.getLast? = some ('/', true) → rest.head? ≠ some '/' ∧ rest.head? ≠ some '*') :
    lx.advance (text.map Prod.fst) rest.head? = lx ∧
      lx.readings (text.map Prod.fst ++ rest) = text ++ lx.readings rest ∧
      ∀ text', WellFormed .code text' → text'.map Prod.fst = text.map Prod.fst → text' = text := by
  obtain ⟨hmode, hpaired⟩ := Lexer.inCode_iff.mp hcode
  have hlx : lx = Region.code.lexer lx.holes := by rw [Region.lexer, Region.mode, ← hmode, ← hpaired]
  have hread : lx.Reads lx text rest.head? := hlx ▸ h.reads hrest
  refine ⟨hread.advance_eq, ?_, fun text' h' heq => h.eq_of_map_fst_eq h' heq⟩
  rw [Lexer.readings_eq_readingsBefore, Lexer.readings_eq_readingsBefore, Lexer.readingsBefore_append,
    Option.or_none, hread.readings_eq, hread.advance_eq]

/-- A brace group around a template, in whose hole stands a string with a brace, and a slash after the
group. -/
def nestedText : List (Char × Bool) :=
  [('{', true), (backtick, false), ('$', false), ('{', false), ('f', true), ('"', false), ('}', false),
    ('"', false), ('}', false), ('$', false), (backtick, false), ('}', true), ('/', true)]

theorem wellFormed_nestedText : WellFormed .code nestedText := by
  have hstring : WellFormed .code [('"', false), ('}', false), ('"', false)] :=
    @WellFormed.quoted '"' ['}'] [] (Or.inl rfl) (.char (by decide) (by decide) .nil) .nil
  have hinside : WellFormed .code [('f', true), ('"', false), ('}', false), ('"', false)] :=
    .plain (by unfold IsPlain; decide) (by decide) hstring
  have hdollar : WellFormed .template [('$', false)] := .char (by decide) (by decide) (by decide) .nil
  have hparts := WellFormed.hole hinside hdollar
  have hslash : WellFormed .code [('/', true)] := .plain (by unfold IsPlain; decide) (by decide) .nil
  exact .group (.template hparts .nil) hslash

theorem nestedText_readings :
    WellFormed .code nestedText ∧ (Lexer.mk .code [2] false).inCode = true ∧
      nestedText.getLast? = some ('/', true) ∧
      (Lexer.mk .code [2] false).advance (nestedText.map Prod.fst) (some '}') = ⟨.code, [2], false⟩ ∧
      (Lexer.mk .code [2] false).readings (nestedText.map Prod.fst ++ ['}', 'g']) =
        nestedText ++ [('}', true), ('g', true)] := by
  obtain ⟨hafter, hread, -⟩ := @readings_of_wellFormed nestedText wellFormed_nestedText
    ⟨.code, [2], false⟩ rfl ['}', 'g'] fun _ => ⟨by decide, by decide⟩
  exact ⟨wellFormed_nestedText, rfl, rfl, hafter, hread⟩

end SchemaModules.Lexical
