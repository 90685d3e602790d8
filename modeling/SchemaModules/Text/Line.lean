import SchemaModules.Text.Split

/-!
# Lines

A text is cut into lines at its line feeds. A text without one is a single line, and the piece after
the last line feed is a line too, perhaps an empty one.
-/

namespace SchemaModules.Text

/-- The lines of a text, without their line feeds. -/
def lines (cs : List Char) : List (List Char) := pieces (fun c => c = '\n') cs

/-- What follows the first line feed, if there is one. -/
def afterLine : List Char → Option (List Char)
  | [] => none
  | c :: cs => if c = '\n' then some cs else afterLine cs

end SchemaModules.Text
