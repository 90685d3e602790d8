import SchemaModules.Toml.Definition
import SchemaModules.Toml.Reader

/-!
# Reading documents

A document is read in two steps. First its form is settled, statement by statement; then the statements
are taken up in order, and each has to mean something and to define what is not defined yet. That an
element of an array of tables is not possible where it stands shows only when the element is complete,
after the faults of its own entries.
-/

namespace SchemaModules.Toml

/-- The first fault of the entries that stand next, in a table where `ds` is defined already. -/
def entriesFault? : Definitions → List Form → Option Fault
  | _, .entry (.error fault) :: _ => some fault
  | ds, .entry (.ok (key, _)) :: rest =>
    match defineValue ds [] key with
    | none => some .malformed
    | some ds => entriesFault? ds rest
  | _, _ => none

/-- The statements of the given forms, where `ds` is defined before them and the first stands in the table
at `here`. -/
def settle : Definitions → List String → List Form → Except Fault (List Statement)
  | _, _, [] => .ok []
  | _, _, .entry (.error fault) :: _ => .error fault
  | _, _, .header (.error fault) :: _ => .error fault
  | _, _, .element (.error fault) :: _ => .error fault
  | ds, here, .entry (.ok (key, v)) :: rest =>
    match defineValue ds here key with
    | none => .error .malformed
    | some ds => (settle ds here rest).map fun others => .entry key v :: others
  | ds, _, .header (.ok path) :: rest =>
    match defineTable ds path with
    | none => .error .malformed
    | some ds => (settle ds path rest).map fun others => .header path :: others
  | ds, _, .element (.ok path) :: rest =>
    match defineElement ds path with
    | none => .error ((entriesFault? [] rest).getD .malformed)
    | some ds => (settle ds path rest).map fun others => .element path :: others

/-- `cs` without a byte order mark at its start. -/
def dropMark : List Char → List Char
  | '\uFEFF' :: cs => cs
  | cs => cs

/-- The statements of a document. -/
def document (text : String) : Except Fault (List Statement) :=
  let cs := dropMark text.toList
  match forms (cs.length + 1) cs with
  | none => .error .malformed
  | some found => settle [] [] found

end SchemaModules.Toml
