import SchemaModules.Text.Blank
import SchemaModules.Text.Bytes
import SchemaModules.Text.Name

/-!
# Patterns

A pattern looks at the start of a text and, if it is met there, gives a value and what is left of the
text. Patterns are written from a few pieces: a literal word, a run of blanks, a run of word
characters. Each piece takes as much as it can and never gives any back, so a pattern meets a text in
at most one way.

The occurrences of a pattern are found from left to right and do not overlap: after one the search
goes on at its end, and where there is none it goes on one character further.
-/

namespace SchemaModules.Text

/-- A way to read a value off the start of a text; the second part is what is left. -/
abbrev Pattern (α : Type) := List Char → Option (α × List Char)

/-- What is left of `cs` after `word`. -/
def literal (word : String) (cs : List Char) : Option (List Char) := word.toList.isPrefixOf? cs

/-- What is left of `cs` after a run of blanks, which may be empty. -/
def blanks (cs : List Char) : List Char := cs.dropWhile isBlank

/-- What is left of `cs` after a run of at least one blank. -/
def someBlanks : List Char → Option (List Char)
  | [] => none
  | c :: cs => if isBlank c then some (blanks cs) else none

/-- A run of word characters, which may be empty. -/
def wordRun (cs : List Char) : List Char × List Char :=
  (cs.takeWhile isWordChar, cs.dropWhile isWordChar)

/-- A run of at least one word character. -/
def word (cs : List Char) : Option (List Char × List Char) :=
  let run := wordRun cs
  if run.1.isEmpty then none else some run

/-- An occurrence of a pattern in a text. -/
structure Occurrence (α : Type) where
  /-- The byte at which it starts. -/
  offset : Nat
  /-- The characters that the pattern took. -/
  text : List Char
  /-- The value read off them. -/
  value : α

/-- The span that the occurrence covers. -/
def Occurrence.span {α : Type} (o : Occurrence α) : Span :=
  ⟨o.offset, o.offset + byteLength o.text⟩

/-- The characters that were taken from `cs` to leave `rest`. -/
def taken (cs rest : List Char) : List Char := cs.take (cs.length - rest.length)

/-- The occurrences of `p` in `cs`, which starts at byte `pos`; its first `skip` characters belong to
the occurrence before. -/
def occurrencesFrom {α : Type} (p : Pattern α) : Nat → Nat → List Char → List (Occurrence α)
  | _, _, [] => []
  | skip + 1, pos, c :: cs => occurrencesFrom p skip (pos + c.utf8Size) cs
  | 0, pos, c :: cs =>
    match p (c :: cs) with
    | none => occurrencesFrom p 0 (pos + c.utf8Size) cs
    | some (value, rest) =>
      ⟨pos, taken (c :: cs) rest, value⟩ ::
        occurrencesFrom p (cs.length - rest.length) (pos + c.utf8Size) cs

/-- The occurrences of `p` in `cs`, from left to right and without overlap. -/
def occurrences {α : Type} (p : Pattern α) (cs : List Char) : List (Occurrence α) :=
  occurrencesFrom p 0 0 cs

end SchemaModules.Text
