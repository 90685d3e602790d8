import SchemaModules.Text.Blank
import SchemaModules.Text.Bytes
import SchemaModules.Text.Line

/-!
# Banners

The comment lines directly above a declaration are its banner, and blank lines may stand between the
two. A banner does not reach back into the line on which an earlier declaration ended.
-/

namespace SchemaModules.Declaration

open Text

/-- Whether a line is a comment and nothing else. -/
def isCommentLine (line : List Char) : Bool := ['/', '/'].isPrefixOf (trimStart line)

/-- The comment lines at the end of a text, after leaving out the blank lines at its end. -/
def trailingComments (cs : List Char) : List (List Char) :=
  (((lines cs).reverse.dropWhile allBlank).takeWhile isCommentLine).reverse

/-- The text between byte `boundary` and byte `start`, without the rest of a line that begins before
the boundary; nothing when that line does not end in between. -/
def gapAbove (cs : List Char) (boundary start : Nat) : Option (List Char) :=
  let gap := slice cs boundary start
  if boundary = 0 ∨ (takeBytes boundary cs).getLast? = some '\n' then some gap else afterLine gap

/-- The banner of a declaration at byte `start`, where earlier declarations end by byte `boundary`. -/
def banner? (cs : List Char) (boundary start : Nat) : Option (List Char) :=
  match gapAbove cs boundary start with
  | none => none
  | some gap =>
    let run := (trailingComments gap).map trimEnd
    if run.isEmpty then none else some (List.intercalate ['\n'] run)

end SchemaModules.Declaration
