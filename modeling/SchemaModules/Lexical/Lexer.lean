/-!
# Reading a source character by character

A source is code, mixed with comments, quoted strings and template literals. The lexer reads one
character at a time, looks at the one after it, and knows which of these it is in. A template literal
may hold *holes*, opened by a dollar sign and a brace, whose contents are code again; the lexer
remembers for each open hole how many braces were opened inside it, so it can tell the brace that ends
the hole from the others.

Some pairs of characters are read as one: an escape in a string, the two characters that open or close
a block comment, and the two that open a hole. After the first of a pair the lexer is *paired*, and
the second only completes it.
-/

namespace SchemaModules.Lexical

/-- The character that delimits template literals. -/
abbrev backtick : Char := '\x60'

/-- Where in the source the lexer is. -/
inductive Mode
  /-- Outside every comment and string, or in a hole of a template literal. -/
  | code
  /-- In a comment that ends with its line. -/
  | lineComment
  /-- In a comment that ends with a star and a slash. -/
  | blockComment
  /-- In a string or template literal that `quote` opened and will close. -/
  | quoted (quote : Char)
  deriving Repr, DecidableEq

/-- What the lexer knows between two characters. -/
structure Lexer where
  /-- Where it is. -/
  mode : Mode := .code
  /-- The braces opened and not yet closed in each open hole, the innermost hole first. -/
  holes : List Nat := []
  /-- Whether the next character is the second of a pair. -/
  paired : Bool := false
  deriving Repr, DecidableEq

namespace Lexer

/-- The lexer before the first character of a source. -/
def start : Lexer := {}

/-- Whether the lexer stands in code, with no pair to complete. -/
def inCode (lx : Lexer) : Bool := lx.mode = .code && !lx.paired

/-- The lexer after an opening brace in code: the innermost hole has one more to close. -/
def openBrace (lx : Lexer) : Lexer :=
  match lx.holes with
  | [] => lx
  | count :: outer => { lx with holes := (count + 1) :: outer }

/-- The lexer after a closing brace in code: it ends the innermost hole when no brace is open there,
and the template literal around the hole goes on. -/
def closeBrace (lx : Lexer) : Lexer :=
  match lx.holes with
  | [] => lx
  | 0 :: outer => { lx with mode := .quoted backtick, holes := outer }
  | (count + 1) :: outer => { lx with holes := count :: outer }

/-- The lexer after reading `c` in code. -/
def stepCode (lx : Lexer) (c : Char) (next : Option Char) : Lexer :=
  if c = '"' ∨ c = '\'' ∨ c = backtick then { lx with mode := .quoted c }
  else if c = '/' ∧ next = some '/' then { lx with mode := .lineComment }
  else if c = '/' ∧ next = some '*' then { lx with mode := .blockComment, paired := true }
  else if c = '{' then lx.openBrace
  else if c = '}' then lx.closeBrace
  else lx

/-- The lexer after reading `c` in a string that `quote` opened. -/
def stepQuoted (lx : Lexer) (quote c : Char) (next : Option Char) : Lexer :=
  if c = '\\' then { lx with paired := true }
  else if quote = backtick ∧ c = '$' ∧ next = some '{' then
    { mode := .code, holes := 0 :: lx.holes, paired := true }
  else if c = quote then { lx with mode := .code }
  else lx

/-- The lexer after reading `c`, where `next` is the character after `c`, if there is one. -/
def step (lx : Lexer) (c : Char) (next : Option Char) : Lexer :=
  if lx.paired then { lx with paired := false }
  else match lx.mode with
    | .code => lx.stepCode c next
    | .lineComment => if c = '\n' then { lx with mode := .code } else lx
    | .blockComment =>
      if c = '*' ∧ next = some '/' then { lx with mode := .code, paired := true } else lx
    | .quoted quote => lx.stepQuoted quote c next

/-- The lexer after reading all of `cs`. -/
def run : Lexer → List Char → Lexer
  | lx, [] => lx
  | lx, c :: rest => (lx.step c rest.head?).run rest

/-- Each character of `cs` with whether it is code: the lexer stands in code both before it and after
it. The characters of comments and strings are not, their delimiters included. -/
def readings : Lexer → List Char → List (Char × Bool)
  | _, [] => []
  | lx, c :: rest =>
    let after := lx.step c rest.head?
    (c, lx.inCode && after.inCode) :: after.readings rest

end Lexer

end SchemaModules.Lexical
