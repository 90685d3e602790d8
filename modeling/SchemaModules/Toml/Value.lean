/-!
# TOML documents

A document is a list of statements: entries, which give a key a value, and headers, which say to what
table the entries after them belong. Keys may have several parts, one for each level of tables.
-/

namespace SchemaModules.Toml

/-- A value. Numbers and points in time are kept as they are written. -/
inductive Value
  /-- A string. -/
  | string (s : String)
  /-- A truth value. -/
  | boolean (b : Bool)
  /-- An integer or a float. -/
  | number (text : String)
  /-- A date, a time or both. -/
  | moment (text : String)
  /-- A list of values. -/
  | array (items : List Value)
  /-- An inline table, with the keys of its entries in parts. -/
  | table (entries : List (List String × Value))

/-- A statement of a document. -/
inductive Statement
  /-- A key gets a value. -/
  | entry (key : List String) (value : Value)
  /-- The entries that follow belong to the table at `path`. -/
  | header (path : List String)
  /-- The entries that follow belong to a new element of the array of tables at `path`. -/
  | element (path : List String)

end SchemaModules.Toml
