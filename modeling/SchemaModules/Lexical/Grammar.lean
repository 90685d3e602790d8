import SchemaModules.Lexical.Lexer

/-!
# The grammar of sources

What is code in a well-formed source can be said without a lexer, by recursion on its structure: code
is a sequence of plain characters, strings, comments, brace groups and template literals, and a template
literal is a sequence of characters, escapes and holes, which hold code. Every character carries a mark
that says whether it is code. The delimiters of strings, comments, template literals and holes are not.
-/

namespace SchemaModules.Lexical

/-- Characters that are no code. -/
def inert (cs : List Char) : List (Char × Bool) := cs.map fun c => (c, false)

/-- The two kinds of text that nest in each other. -/
inductive Region
  /-- Code. -/
  | code
  /-- The inside of a template literal. -/
  | template
  deriving Repr, DecidableEq

/-- A character that means nothing by itself in code. -/
def IsPlain (c : Char) : Prop :=
  c ≠ '"' ∧ c ≠ '\'' ∧ c ≠ backtick ∧ c ≠ '{' ∧ c ≠ '}'

/-- The inside of a string that `quote` delimits: a backslash goes with the character after it, and the
quote does not stand by itself. -/
inductive StringBody (quote : Char) : List Char → Prop
  | nil : StringBody quote []
  | char {c : Char} {rest : List Char} (ne_quote : c ≠ quote) (ne_escape : c ≠ '\\')
      (tail : StringBody quote rest) : StringBody quote (c :: rest)
  | escape {c : Char} {rest : List Char} (tail : StringBody quote rest) :
      StringBody quote ('\\' :: c :: rest)

/-- Well-formed text of a region, with the mark of each character. -/
inductive WellFormed : Region → List (Char × Bool) → Prop
  | nil {r : Region} : WellFormed r []
  | plain {c : Char} {rest : List (Char × Bool)} (plain : IsPlain c)
      (no_comment : c = '/' → ∀ d ∈ rest.head?, d.1 ≠ '/' ∧ d.1 ≠ '*')
      (tail : WellFormed .code rest) : WellFormed .code ((c, true) :: rest)
  | group {inner rest : List (Char × Bool)} (inside : WellFormed .code inner)
      (tail : WellFormed .code rest) :
      WellFormed .code (('{', true) :: inner ++ ('}', true) :: rest)
  | quoted {quote : Char} {body : List Char} {rest : List (Char × Bool)}
      (quote_mem : quote = '"' ∨ quote = '\'') (inside : StringBody quote body)
      (tail : WellFormed .code rest) :
      WellFormed .code (inert (quote :: body ++ [quote]) ++ rest)
  | lineComment {body : List Char} {rest : List (Char × Bool)} (one_line : '\n' ∉ body)
      (tail : WellFormed .code rest) :
      WellFormed .code (inert ('/' :: '/' :: body ++ ['\n']) ++ rest)
  | blockComment {body : List Char} {rest : List (Char × Bool)}
      (closes_once : ¬ ['*', '/'] <:+: body) (tail : WellFormed .code rest) :
      WellFormed .code (inert ('/' :: '*' :: body ++ ['*', '/']) ++ rest)
  | template {parts rest : List (Char × Bool)} (inside : WellFormed .template parts)
      (tail : WellFormed .code rest) :
      WellFormed .code ((backtick, false) :: parts ++ (backtick, false) :: rest)
  | char {c : Char} {rest : List (Char × Bool)} (ne_close : c ≠ backtick) (ne_escape : c ≠ '\\')
      (no_hole : c = '$' → ∀ d ∈ rest.head?, d.1 ≠ '{') (tail : WellFormed .template rest) :
      WellFormed .template ((c, false) :: rest)
  | escape {c : Char} {rest : List (Char × Bool)} (tail : WellFormed .template rest) :
      WellFormed .template (('\\', false) :: (c, false) :: rest)
  | hole {inner rest : List (Char × Bool)} (inside : WellFormed .code inner)
      (tail : WellFormed .template rest) :
      WellFormed .template (('$', false) :: ('{', false) :: inner ++ ('}', false) :: rest)

end SchemaModules.Lexical
