import SchemaModules.Declaration.Extent

/-!
# Nested brackets

A sequence of brackets nests when every opener has a closer of its own kind after it, and what stands
between the two nests.
-/

namespace SchemaModules.Declaration

/-- A sequence of brackets that nest. -/
inductive Nested : List Char → Prop
  | nil : Nested []
  | wrap {opener closer : Char} {inner rest : List Char} (kind : closerOf? opener = some closer)
      (inside : Nested inner) (tail : Nested rest) : Nested (opener :: inner ++ closer :: rest)

/-- The brackets among the characters that are code. -/
def codeBrackets (cs : List (Char × Bool)) : List Char :=
  (cs.filter fun c => c.2 && ((closerOf? c.1).isSome || isCloser c.1)).map Prod.fst

end SchemaModules.Declaration
