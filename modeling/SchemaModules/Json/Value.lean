/-!
# JSON values

The values that reports are made of. The fields of an object keep their order.
-/

namespace SchemaModules.Json

/-- A JSON value. -/
inductive Value
  /-- A natural number. -/
  | number (n : Nat)
  /-- A string. -/
  | string (s : String)
  /-- A list. -/
  | array (items : List Value)
  /-- An object. -/
  | object (fields : List (String × Value))

/-- A list of strings. -/
def Value.strings (xs : List String) : Value := .array (xs.map .string)

end SchemaModules.Json
