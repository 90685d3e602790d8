import SchemaModules.Json.Value

/-!
# JSON text

A value is written over several lines, with two spaces for each level. Empty lists and objects stay on
one line. In strings only the quote, the backslash and the control characters are escaped; every other
character stands for itself.
-/

namespace SchemaModules.Json

/-- A character as it stands in a string. -/
def escape (c : Char) : List Char :=
  if c = '"' then ['\\', '"']
  else if c = '\\' then ['\\', '\\']
  else if c = '\n' then ['\\', 'n']
  else if c = '\t' then ['\\', 't']
  else if c = '\r' then ['\\', 'r']
  else if c = '\x08' then ['\\', 'b']
  else if c = '\x0c' then ['\\', 'f']
  else if c.toNat < 0x20 then ['\\', 'u', '0', '0', Nat.digitChar (c.toNat / 16), Nat.digitChar (c.toNat % 16)]
  else [c]

/-- A string with its quotes. -/
def quote (s : String) : String := "\"" ++ String.ofList (s.toList.flatMap escape) ++ "\""

/-- The start of a line at the given level. -/
def indent (level : Nat) : String := String.ofList (List.replicate (2 * level) ' ')

/-- The entries of a list or object between its brackets, each on a line of its own. -/
def block (opener closer : String) (level : Nat) (entries : List String) : String :=
  if entries.isEmpty then opener ++ closer
  else
    opener ++ "\n" ++ ",\n".intercalate (entries.map fun e => indent (level + 1) ++ e) ++ "\n" ++
      indent level ++ closer

mutual

/-- The text of a value at the given level. -/
def pretty (level : Nat) : Value → String
  | .number n => toString n
  | .string s => quote s
  | .array items => block "[" "]" level (prettyItems (level + 1) items)
  | .object fields => block "\x7b" "\x7d" level (prettyFields (level + 1) fields)

/-- The texts of the items of a list. -/
def prettyItems (level : Nat) : List Value → List String
  | [] => []
  | v :: rest => pretty level v :: prettyItems level rest

/-- The texts of the fields of an object. -/
def prettyFields (level : Nat) : List (String × Value) → List String
  | [] => []
  | f :: rest => prettyField level f :: prettyFields level rest

/-- The text of a field. -/
def prettyField (level : Nat) : String × Value → String
  | (key, v) => quote key ++ ": " ++ pretty level v

end

/-- The text of a value. -/
def Value.toText (v : Value) : String := pretty 0 v

end SchemaModules.Json
