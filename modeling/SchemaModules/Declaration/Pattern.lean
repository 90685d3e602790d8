import SchemaModules.Catalog.Basic
import SchemaModules.Text.Pattern

/-!
# The two forms of declaration

An alias is a whole statement, which derives a type from the rows of an entity. Of an entity only the
header is a pattern: from `export` to the brace that opens the columns. What comes after the header is
bounded by its brackets.
-/

namespace SchemaModules.Declaration

open Text

/-- What an alias statement says. -/
structure AliasStatement where
  /-- The name that it declares. -/
  name : List Char
  /-- The entity that it refers to. -/
  referenced : List Char
  /-- The form of the entity's rows. -/
  shape : Shape
  deriving Repr, DecidableEq

/-- The word for a shape at the end of an alias statement. -/
def shapeWord (cs : List Char) : Option (Shape × List Char) :=
  match literal "Select" cs with
  | some rest => some (.read, rest)
  | none => (literal "Insert" cs).map fun rest => (.write, rest)

/-- An alias statement, with the blanks after it and a semicolon after those, if there is one. -/
def aliasStatement : Pattern AliasStatement := fun cs => do
  let cs ← literal "export" cs
  let cs ← someBlanks cs
  let cs ← literal "type" cs
  let cs ← someBlanks cs
  let (name, cs) ← word cs
  let cs ← literal "=" (blanks cs)
  let cs ← literal "typeof" (blanks cs)
  let cs ← someBlanks cs
  let (referenced, cs) ← word cs
  let cs ← literal "." (blanks cs)
  let cs ← literal "$infer" (blanks cs)
  let (shape, cs) ← shapeWord cs
  let cs := blanks cs
  some (⟨name, referenced, shape⟩, (literal ";" cs).getD cs)

/-- What the header of an entity says. -/
structure EntityHeader where
  /-- The name that it declares. -/
  name : List Char
  /-- The characters before the bracket that opens the builder call. -/
  lead : List Char
  /-- The name of the table in the database. -/
  physicalName : List Char
  deriving Repr, DecidableEq

/-- A quote that may stand around a table's name. -/
def isQuote (c : Char) : Bool := c = '"' || c = '\''

/-- A table's name between quotes, on one line. The two quotes need not be alike. -/
def quotedName : Pattern (List Char)
  | [] => none
  | c :: cs =>
    let inside := fun d => !isQuote d && d != '\n'
    match cs.dropWhile inside with
    | [] => none
    | d :: rest => if isQuote c && isQuote d then some (cs.takeWhile inside, rest) else none

/-- The name of a table builder, which ends in `Table`. -/
def builderName (cs : List Char) : Option (List Char) :=
  let run := wordRun cs
  if "Table".toList.isSuffixOf run.1 then some run.2 else none

/-- The header of an entity, up to the brace that opens its columns. -/
def entityHeader : Pattern EntityHeader := fun cs => do
  let all := cs
  let cs ← literal "export" cs
  let cs ← someBlanks cs
  let cs ← literal "const" cs
  let cs ← someBlanks cs
  let (name, cs) ← word cs
  let cs ← literal "=" (blanks cs)
  let cs ← builderName (blanks cs)
  let call := blanks cs
  let cs ← literal "(" call
  let (physicalName, cs) ← quotedName (blanks cs)
  let cs ← literal "," (blanks cs)
  let cs ← literal "\x7b" (blanks cs)
  some (⟨name, taken all call, physicalName⟩, cs)

end SchemaModules.Declaration
