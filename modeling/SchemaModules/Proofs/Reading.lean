import SchemaModules.Lexical.Lexer

/-!
# Proofs: reading a text in parts

The lexer looks at the character after the one it reads, so what it makes of the last character of a
part depends on the part that follows. The lemmas below read a part together with the character that
comes after it, and put parts together.

Most characters of a declaration are *neutral*: in code the lexer takes no notice of them, and they are
no brackets either. Over neutral text the lexer stays as it is.
-/

namespace SchemaModules.Lexical

/-- The characters that the lexer, or the search for the end of a declaration, takes notice of. -/
def marks : List Char := ['"', '\'', backtick, '/', '*', '(', ')', '[', ']', '{', '}']

/-- A character that means nothing in code, neither by itself nor after another character. -/
def isNeutral (c : Char) : Bool := !marks.contains c

theorem ne_of_isNeutral {c : Char} (hc : isNeutral c = true) : ∀ d ∈ marks, c ≠ d := by
  rintro d hd rfl
  simp [isNeutral, hd] at hc

namespace Lexer

/-- The lexer after reading all of `cs`, where `next` is the character after `cs`, if there is one. -/
def advance : Lexer → List Char → Option Char → Lexer
  | lx, [], _ => lx
  | lx, c :: rest, next => (lx.step c (rest.head?.or next)).advance rest next

/-- The readings of `cs`, where `next` is the character after `cs`, if there is one. -/
def readingsBefore : Lexer → List Char → Option Char → List (Char × Bool)
  | _, [], _ => []
  | lx, c :: rest, next =>
    let after := lx.step c (rest.head?.or next)
    (c, lx.inCode && after.inCode) :: after.readingsBefore rest next

@[simp] theorem advance_nil (lx : Lexer) (next : Option Char) : lx.advance [] next = lx := rfl

@[simp] theorem readingsBefore_nil (lx : Lexer) (next : Option Char) :
    lx.readingsBefore [] next = [] := rfl

theorem readings_eq_readingsBefore (lx : Lexer) (cs : List Char) :
    lx.readings cs = lx.readingsBefore cs none := by
  induction cs generalizing lx with
  | nil => rfl
  | cons c cs ih => simp [readings, readingsBefore, ih]

theorem head?_append_or (xs ys : List Char) (next : Option Char) :
    (xs ++ ys).head?.or next = xs.head?.or (ys.head?.or next) := by
  rw [List.head?_append, Option.or_assoc]

/-- Reading two parts is reading the second one after the first. -/
theorem advance_append (lx : Lexer) (xs ys : List Char) (next : Option Char) :
    lx.advance (xs ++ ys) next = (lx.advance xs (ys.head?.or next)).advance ys next := by
  induction xs generalizing lx with
  | nil => rfl
  | cons c xs ih => rw [List.cons_append, advance, advance, ih, head?_append_or]

theorem readingsBefore_append (lx : Lexer) (xs ys : List Char) (next : Option Char) :
    lx.readingsBefore (xs ++ ys) next = lx.readingsBefore xs (ys.head?.or next) ++
      (lx.advance xs (ys.head?.or next)).readingsBefore ys next := by
  induction xs generalizing lx with
  | nil => rfl
  | cons c xs ih =>
    rw [List.cons_append, readingsBefore, readingsBefore, advance, ih, head?_append_or]
    rfl

@[simp] theorem length_readingsBefore (lx : Lexer) (cs : List Char) (next : Option Char) :
    (lx.readingsBefore cs next).length = cs.length := by
  induction cs generalizing lx with
  | nil => rfl
  | cons c cs ih => simp [readingsBefore, ih]

theorem inCode_iff {lx : Lexer} : lx.inCode = true ↔ lx.mode = .code ∧ lx.paired = false := by
  simp [inCode]

/-- In code a neutral character changes nothing. -/
theorem step_neutral {lx : Lexer} (hcode : lx.inCode = true) {c : Char} (hc : isNeutral c = true)
    (next : Option Char) : lx.step c next = lx := by
  obtain ⟨hmode, hpaired⟩ := inCode_iff.mp hcode
  have hne := ne_of_isNeutral hc
  simp [step, stepCode, hmode, hpaired, hne '"' (by decide), hne '\'' (by decide),
    hne backtick (by decide), hne '/' (by decide), hne '{' (by decide), hne '}' (by decide)]

theorem advance_neutral {lx : Lexer} (hcode : lx.inCode = true) {cs : List Char}
    (hcs : ∀ c ∈ cs, isNeutral c = true) (next : Option Char) : lx.advance cs next = lx := by
  induction cs with
  | nil => rfl
  | cons c cs ih =>
    rw [advance, step_neutral hcode (hcs c (List.mem_cons_self ..))]
    exact ih fun d hd => hcs d (List.mem_cons_of_mem _ hd)

theorem readingsBefore_neutral {lx : Lexer} (hcode : lx.inCode = true) {cs : List Char}
    (hcs : ∀ c ∈ cs, isNeutral c = true) (next : Option Char) :
    lx.readingsBefore cs next = cs.map fun c => (c, true) := by
  induction cs with
  | nil => rfl
  | cons c cs ih =>
    have hstep := step_neutral hcode (hcs c (List.mem_cons_self ..)) (cs.head?.or next)
    have htail := ih fun d hd => hcs d (List.mem_cons_of_mem _ hd)
    simp only [readingsBefore, hstep, hcode, htail, Bool.and_self, List.map_cons]

/-- It makes no difference to a character which neutral character comes after it. -/
theorem step_congr_neutral (lx : Lexer) (c : Char) {next next' : Option Char}
    (h : ∀ d ∈ next, isNeutral d = true) (h' : ∀ d ∈ next', isNeutral d = true) :
    lx.step c next = lx.step c next' := by
  have hne : ∀ {o : Option Char}, (∀ d ∈ o, isNeutral d = true) → ∀ d ∈ marks, o ≠ some d := by
    rintro o ho d hd rfl
    exact ne_of_isNeutral (ho d rfl) d hd rfl
  simp only [step, stepCode, stepQuoted, hne h '/' (by decide), hne h '*' (by decide),
    hne h '{' (by decide), hne h' '/' (by decide), hne h' '*' (by decide), hne h' '{' (by decide)]

end Lexer

end SchemaModules.Lexical
