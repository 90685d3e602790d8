import SchemaModules.Toml.Fault

/-!
# Quoted text

A string stands between quotes, in one of four styles. Between double quotes a backslash begins an
escape; between single quotes every character stands for itself. Either kind has a style on one line and
a long style over several lines, whose delimiter is the quote three times. A long string may end with up
to two quotes before the closing delimiter.

Where a string ends is decided first, and by its quotes, backslashes and line feeds alone: a string on
one line that is not closed ends with its line, a long one with the document. Then the text between the
delimiters is decoded. A long string leaves out a line break right after its delimiter. Control
characters other than the tab are not allowed, and a carriage return only before a line feed.
-/

namespace SchemaModules.Toml

/-- How a string stands in a document. -/
inductive Style
  /-- On one line between double quotes, with escapes. -/
  | basic
  /-- On one line between single quotes, verbatim. -/
  | literal
  /-- Between three double quotes, with escapes. -/
  | longBasic
  /-- Between three single quotes, verbatim. -/
  | longLiteral
  deriving Repr, DecidableEq

/-- Whether strings of the style may go over several lines. -/
def Style.isLong : Style → Bool
  | .basic | .literal => false
  | .longBasic | .longLiteral => true

/-! ## Where a string ends -/

/-- A text cut behind a closing delimiter. -/
structure Cut where
  /-- The text before the delimiter. -/
  body : List Char
  /-- Whether there is a delimiter. -/
  closed : Bool
  /-- The text after the delimiter. -/
  rest : List Char
  deriving Repr, DecidableEq

/-- The cut with a character in front of the body. -/
def Cut.cons (c : Char) (cut : Cut) : Cut := { cut with body := c :: cut.body }

/-- Whether `c` escapes the character after it in a string that `quote` delimits, where `escaped` says
that it is escaped itself. -/
def escapesNext (quote : Char) (escaped : Bool) (c : Char) : Bool :=
  quote = '"' && c = '\\' && !escaped

/-- Cuts a text behind the first `quote` that is not escaped, but not after the first line. -/
def cutLine (quote : Char) : Bool → List Char → Cut
  | _, [] => ⟨[], false, []⟩
  | escaped, c :: cs =>
    if c = quote && !escaped then ⟨[], true, cs⟩
    else if c = '\n' then ⟨[], false, c :: cs⟩
    else (cutLine quote (escapesNext quote escaped c) cs).cons c

/-- The length of the run of `quote` at the start of `cs`, as far as five. -/
def quoteRun (quote : Char) (cs : List Char) : Nat :=
  ((cs.take 5).takeWhile fun c => c = quote).length

/-- Cuts a text behind the first three quotes of which the first is not escaped, and behind two more if
they follow. -/
def cutLong (quote : Char) : Bool → List Char → Cut
  | _, [] => ⟨[], false, []⟩
  | escaped, c :: cs =>
    let run := quoteRun quote (c :: cs)
    if 3 ≤ run && !escaped then ⟨List.replicate (run - 3) quote, true, (c :: cs).drop run⟩
    else (cutLong quote (escapesNext quote escaped c) cs).cons c

/-- A string at the start of a text: its style, its body, and what is left after it. -/
def cutQuoted : List Char → Option (Style × Cut)
  | '"' :: '"' :: '"' :: rest => some (.longBasic, cutLong '"' false rest)
  | '\'' :: '\'' :: '\'' :: rest => some (.longLiteral, cutLong '\'' false rest)
  | '"' :: rest => some (.basic, cutLine '"' false rest)
  | '\'' :: rest => some (.literal, cutLine '\'' false rest)
  | _ => none

/-! ## What a string says -/

/-- A control character that may stand nowhere in a document. -/
def isForbidden (c : Char) : Bool := (c.toNat < 0x20 && c != '\t') || c.toNat = 0x7F

/-- Whether a carriage return before `cs` is part of a line break. -/
def feedFollows (cs : List Char) : Bool := cs.head? = some '\n'

/-- Whether `c`, which `cs` follows, may stand in a string. -/
def mayStand (long : Bool) (c : Char) (cs : List Char) : Bool :=
  !isForbidden c || (long && (c = '\n' || (c = '\r' && feedFollows cs)))

/-- The value of a hexadecimal digit. -/
def hexDigit? (c : Char) : Option Nat :=
  if '0' ≤ c ∧ c ≤ '9' then some (c.toNat - '0'.toNat)
  else if 'a' ≤ c ∧ c ≤ 'f' then some (c.toNat - 'a'.toNat + 10)
  else if 'A' ≤ c ∧ c ≤ 'F' then some (c.toNat - 'A'.toNat + 10)
  else none

/-- The value of hexadecimal digits, where `n` is the value of the digits before them. -/
def hexValue? : Nat → List Char → Option Nat
  | n, [] => some n
  | n, c :: cs =>
    match hexDigit? c with
    | some d => hexValue? (16 * n + d) cs
    | none => none

/-- The character whose code point the first `count` characters of `cs` write. -/
def codePoint? (count : Nat) (cs : List Char) : Option Char :=
  if cs.length < count then none
  else match hexValue? 0 (cs.take count) with
    | some n => if n.isValidChar then some (Char.ofNat n) else none
    | none => none

/-- The character that an escape stands for and the number of characters after the backslash that it
uses. -/
def escape? : List Char → Option (Char × Nat)
  | [] => none
  | c :: cs =>
    if c = 'b' then some ('\x08', 1)
    else if c = 't' then some ('\t', 1)
    else if c = 'n' then some ('\n', 1)
    else if c = 'f' then some ('\x0c', 1)
    else if c = 'r' then some ('\r', 1)
    else if c = 'e' then some ('\x1b', 1)
    else if c = '"' then some ('"', 1)
    else if c = '\\' then some ('\\', 1)
    else if c = 'x' then (codePoint? 2 cs).map fun d => (d, 3)
    else if c = 'u' then (codePoint? 4 cs).map fun d => (d, 5)
    else if c = 'U' then (codePoint? 8 cs).map fun d => (d, 9)
    else none

/-- The length of the run of spaces, tabs and line breaks at the start of `cs`. -/
def roomRun : List Char → Nat
  | [] => 0
  | c :: cs =>
    if c = ' ' ∨ c = '\t' ∨ c = '\n' ∨ (c = '\r' ∧ feedFollows cs) then roomRun cs + 1 else 0

/-- Whether nothing but spaces and tabs stands before the next line break. -/
def breaksLine (cs : List Char) : Bool :=
  match cs.dropWhile fun c => c = ' ' || c = '\t' with
  | [] => false
  | c :: rest => c = '\n' || (c = '\r' && feedFollows rest)

/-- The text that stands between double quotes, decoded. In a long string a backslash at the end of a
line joins it to the next text. The first `skip` characters belong to an escape before them. -/
def unescape (long : Bool) : Nat → List Char → Option (List Char)
  | _, [] => some []
  | skip + 1, _ :: cs => unescape long skip cs
  | 0, c :: cs =>
    if c = '\\' then
      if long && breaksLine cs then unescape long (roomRun cs) cs
      else match escape? cs with
        | none => none
        | some (d, used) => (unescape long used cs).map fun ds => d :: ds
    else if mayStand long c cs then (unescape long 0 cs).map fun ds => c :: ds
    else none

/-- The text that stands between single quotes, which is the text itself. -/
def verbatim (long : Bool) : List Char → Option (List Char)
  | [] => some []
  | c :: cs => if mayStand long c cs then (verbatim long cs).map fun ds => c :: ds else none

/-- `cs` without a line break at its start. -/
def dropBreak : List Char → List Char
  | '\n' :: cs => cs
  | '\r' :: '\n' :: cs => cs
  | cs => cs

/-- The text of a string with the given body. -/
def decode? : Style → List Char → Option (List Char)
  | .basic, body => unescape false 0 body
  | .literal, body => verbatim false body
  | .longBasic, body => unescape true 0 (dropBreak body)
  | .longLiteral, body => verbatim true (dropBreak body)

/-- The text of a string that has been cut off. -/
def Cut.text (style : Style) (cut : Cut) : Except Fault String :=
  if cut.closed then (orMalformed (decode? style cut.body)).map String.ofList
  else .error .malformed

end SchemaModules.Toml
