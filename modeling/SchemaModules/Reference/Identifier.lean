import SchemaModules.Order.StableSort
import SchemaModules.Text.Name
import SchemaModules.Text.Split

/-!
# Identifiers in a text

The identifiers of a text are its longest runs of identifier characters. A name is referred to when it
is one of them; a longer run that merely contains it does not refer to it. Comments and strings are
searched like code.
-/

namespace SchemaModules.Reference

open Text

/-- The identifiers of a text, in order and with repetitions. -/
def identifiers (text : String) : List String :=
  (runs (fun c => !isIdentChar c) text.toList).map String.ofList

/-- The identifiers of a text, each once, sorted by code points. -/
def distinctIdentifiers (text : String) : List String :=
  stableSort (fun a b => a ≤ b) (identifiers text).eraseDups

end SchemaModules.Reference
