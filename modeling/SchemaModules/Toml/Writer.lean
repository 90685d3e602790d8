import SchemaModules.Toml.Quoted

/-!
# Writing TOML

A string is written in the plainest of four styles that can hold it: between double quotes, between
single quotes, or between three of either. What forces a style are control characters, backslashes,
line feeds and the longest run of each quote.
-/

namespace SchemaModules.Toml

/-- The longest run of `q` in a text, where `current` is the length of the run before it and `best` the
longest so far. -/
def longestRunFrom (q : Char) : Nat → Nat → List Char → Nat
  | _, best, [] => best
  | current, best, c :: cs =>
    if c = q then longestRunFrom q (current + 1) (max best (current + 1)) cs
    else longestRunFrom q 0 best cs

/-- The length of the longest run of `q` in a text. -/
def longestRun (q : Char) (cs : List Char) : Nat := longestRunFrom q 0 0 cs

/-- A control character that can only be written as an escape. -/
def needsEscape (c : Char) : Bool := (c.toNat < 0x20 && c != '\t' && c != '\n') || c.toNat = 0x7F

/-- The style of a string: the first that can hold it. -/
def styleOf (cs : List Char) : Style :=
  let escapes := cs.any needsEscape
  let backslashes := cs.contains '\\'
  let breaks := cs.contains '\n'
  let doubles := longestRun '"' cs
  let singles := longestRun '\'' cs
  if !escapes && !backslashes && doubles = 0 && !breaks then .basic
  else if !escapes && singles = 0 && !breaks then .literal
  else if !escapes && !backslashes && doubles ≤ 2 then .longBasic
  else if !escapes && singles ≤ 2 then .longLiteral
  else if breaks then .longBasic
  else .basic

/-- A hexadecimal digit in upper case. -/
def upperHexDigit (n : Nat) : Char := (Nat.digitChar n).toUpper

/-- A character other than a quote between double quotes. -/
def escaped (c : Char) : List Char :=
  if c = '\x08' then ['\\', 'b']
  else if c = '\t' then ['\\', 't']
  else if c = '\n' then ['\\', 'n']
  else if c = '\x0c' then ['\\', 'f']
  else if c = '\r' then ['\\', 'r']
  else if c = '\\' then ['\\', '\\']
  else if c.toNat < 0x20 || c.toNat = 0x7F then
    ['\\', 'u', '0', '0', upperHexDigit (c.toNat / 16), upperHexDigit (c.toNat % 16)]
  else [c]

/-- The text of a string on one line between double quotes. -/
def basicBody (cs : List Char) : List Char :=
  cs.flatMap fun c => if c = '"' then ['\\', '"'] else escaped c

/-- The text of a string between three double quotes, where `run` quotes stand right before it. Line
feeds stand as they are, and the third quote of a run is escaped. -/
def longBasicBody : Nat → List Char → List Char
  | _, [] => []
  | run, c :: cs =>
    if c = '"' then
      if run < 2 then '"' :: longBasicBody (run + 1) cs else '\\' :: '"' :: longBasicBody 0 cs
    else if c = '\n' then '\n' :: longBasicBody 0 cs
    else escaped c ++ longBasicBody 0 cs

/-- A string in the given style. The long styles begin on a line of their own if the text has several
lines. -/
def writeAs (style : Style) (cs : List Char) : List Char :=
  let lead := if cs.contains '\n' then ['\n'] else []
  match style with
  | .basic => '"' :: basicBody cs ++ ['"']
  | .literal => '\'' :: cs ++ ['\'']
  | .longBasic => ['"', '"', '"'] ++ lead ++ longBasicBody 0 cs ++ ['"', '"', '"']
  | .longLiteral => ['\'', '\'', '\''] ++ lead ++ cs ++ ['\'', '\'', '\'']

/-- A string in its style. -/
def writeString (s : String) : String := String.ofList (writeAs (styleOf s.toList) s.toList)

/-- A truth value. -/
def writeBool (b : Bool) : String := if b then "true" else "false"

/-- A list of strings on one line. -/
def writeStrings (xs : List String) : String := "[" ++ ", ".intercalate (xs.map writeString) ++ "]"

/-- An entry on a line of its own. -/
def writeEntry (key value : String) : String := key ++ " = " ++ value ++ "\n"

end SchemaModules.Toml
