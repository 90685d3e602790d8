import SchemaModules.Toml.Quoted
import SchemaModules.Toml.Scalar

/-!
# Reading the parts of documents

A statement ends with its line. Between the values of arrays, and between the parts of inline tables
other than those of one key, there may be line breaks and comments, and a comma may follow the last
value or entry. Arrays and inline tables nest at most `maxDepth` deep, and a key has at most as many
parts. Within an inline table no key may be given twice, nor be given a value of its own and one below
it.

A reader first settles what form a text has: which keys, strings and scalars there are, where each ends,
and how they are put together. A text without a form has no reading. A reading says what the text means,
or gives the first fault among its keys and values. So a fault of the form goes before all others,
wherever they are.

That something is missing is not always a fault of the form. A part of a key may be missing, and so may
the value of an entry that has a line to itself: what is missing there counts as a key or value with a
fault.
-/

namespace SchemaModules.Toml

/-- How deep arrays and inline tables may nest, and how many parts a key may have. -/
def maxDepth : Nat := 80

/-- A reader: what a text begins with, and what is left after it. -/
abbrev Reader (α : Type) := List Char → Option (Except Fault α × List Char)

/-! ## Gaps -/

/-- `cs` without the spaces and tabs at its start. -/
def dropGap (cs : List Char) : List Char := cs.dropWhile isGap

/-- What is left of `cs` after spaces, line breaks and comments; `inComment` says that a comment has
begun. -/
def trivia (inComment : Bool) : List Char → Option (List Char)
  | [] => some []
  | c :: cs =>
    if c = '\n' then trivia false cs
    else if inComment then
      if isForbidden c && !(c = '\r' && feedFollows cs) then none else trivia true cs
    else if isGap c || (c = '\r' && feedFollows cs) then trivia false cs
    else if c = '#' then trivia true cs
    else some (c :: cs)

/-- What is left of `cs` after a comment has begun: the line break that ends it, or nothing. -/
def commentRest : List Char → Option (List Char)
  | [] => some []
  | c :: cs =>
    if c = '\n' ∨ (c = '\r' ∧ feedFollows cs) then some (c :: cs)
    else if isForbidden c then none
    else commentRest cs

/-- What is left of `cs` after the rest of a line that holds at most a comment. -/
def lineEnd (cs : List Char) : Option (List Char) :=
  let rest := match dropGap cs with
    | '#' :: rest => commentRest rest
    | rest => some rest
  match rest with
  | some [] => some []
  | some ('\n' :: rest) => some rest
  | some ('\r' :: '\n' :: rest) => some rest
  | _ => none

/-! ## Keys -/

/-- A character of a key that stands without quotes. -/
def isBareChar (c : Char) : Bool := c.isAlphanum || c = '_' || c = '-'

/-- A part of a key, if there is one: quoted on one line, or a word of bare characters. -/
def keyPart (cs : List Char) : Option (Except Fault String) × List Char :=
  match cutQuoted cs with
  | some (style, cut) =>
    (some (if style.isLong then .error .malformed else cut.text style), cut.rest)
  | none =>
    let run := cs.takeWhile isInWord
    if run.isEmpty then (none, cs)
    else (some (if run.all isBareChar then .ok (String.ofList run) else .error .malformed),
      cs.drop run.length)

/-- The parts of a key, with dots between them, and what is left after the gap behind them. There are at
most `count` of them. -/
def keyParts : Nat → List Char → List (Option (Except Fault String)) × List Char
  | 0, cs => ([], cs)
  | count + 1, cs =>
    let (part, rest) := keyPart cs
    match dropGap rest with
    | '.' :: more =>
      let (parts, rest) := keyParts count (dropGap more)
      (part :: parts, rest)
    | rest => ([part], rest)

/-- The key that has the given parts. That one is missing is a fault. -/
def keyOf (parts : List (Option (Except Fault String))) : Except Fault (List String) :=
  match collect (parts.map fun part => part.getD (.error .malformed)) with
  | .error fault => .error fault
  | .ok path => if maxDepth < path.length then .error .longKey else .ok path

/-- A key, and what is left after the gap behind it. -/
def key (cs : List Char) : Except Fault (List String) × List Char :=
  let (parts, rest) := keyParts (cs.length + 1) cs
  (keyOf parts, rest)

/-! ## Values -/

/-- A key with its value, unless one of them has a fault. -/
def pair (path : Except Fault (List String)) (v : Except Fault Value) :
    Except Fault (List String × Value) :=
  match path, v with
  | .ok path, .ok v => .ok (path, v)
  | .error fault, _ => .error fault
  | .ok _, .error fault => .error fault

/-- A key and its value, with an equals sign between them. What may stand around the sign is dropped by
`gap`. -/
def entry (gap : List Char → Option (List Char)) (value : Reader Value) :
    Reader (List String × Value) := fun cs =>
  let (path, rest) := key cs
  match gap rest with
  | some ('=' :: rest) =>
    match gap rest with
    | none => none
    | some rest => (value rest).map fun r => (pair path r.1, r.2)
  | _ => none

/-- Things that `item` reads, with commas between them, as far as the character `closer`. There are at
most `count` of them. -/
def sequence {α : Type} (item : Reader α) (closer : Char) :
    Nat → List Char → Option (List (Except Fault α) × List Char)
  | 0, _ => none
  | count + 1, cs =>
    match trivia false cs with
    | none => none
    | some [] => none
    | some (c :: rest) =>
      if c = closer then some ([], rest)
      else match item (c :: rest) with
        | none => none
        | some (first, rest) =>
          match trivia false rest with
          | some (',' :: rest) =>
            (sequence item closer count rest).map fun r => (first :: r.1, r.2)
          | some (d :: rest) => if d = closer then some ([first], rest) else none
          | _ => none

/-- Whether one of two keys is the other or lies below it. -/
def clash (a b : List String) : Bool := a.isPrefixOf b || b.isPrefixOf a

/-- The entries of an inline table, where `before` holds the keys of the entries before them. -/
def fieldsOf : List (List String) → List (Except Fault (List String × Value)) →
    Except Fault (List (List String × Value))
  | _, [] => .ok []
  | _, .error fault :: _ => .error fault
  | before, .ok (path, v) :: rest =>
    if before.any (clash path) then .error .malformed
    else (fieldsOf (path :: before) rest).map fun fields => (path, v) :: fields

/-- A value that holds no other values. -/
def plainValue : Reader Value := fun cs =>
  match cutQuoted cs with
  | some (style, cut) => some ((cut.text style).map .string, cut.rest)
  | none =>
    let run := scalarRun false cs
    if run.isEmpty then none else some (orMalformed (scalar? run), cs.drop run.length)

/-- A value in which arrays and inline tables nest at most `depth` deep. -/
def value : Nat → Reader Value
  | 0, cs => plainValue cs
  | depth + 1, cs =>
    match cs with
    | '[' :: rest =>
      (sequence (value depth) ']' (rest.length + 1) rest).map fun r =>
        ((collect r.1).map .array, r.2)
    | '{' :: rest =>
      (sequence (entry (trivia false) (value depth)) '}' (rest.length + 1) rest).map fun r =>
        ((fieldsOf [] r.1).map .table, r.2)
    | _ => plainValue cs

/-! ## Statements -/

/-- Whether a line ends at the start of a text, or nothing but a comment is left of it. -/
def endsLine (cs : List Char) : Bool :=
  cs.head?.all fun c => c = '\n' || c = '\r' || c = '#'

/-- What is left of `cs` at the end of its line or at a comment. Strings are left out as a whole, and
those over several lines do not end the line. The text has at most `count` strings, words and signs. -/
def skipLine : Nat → List Char → List Char
  | 0, cs => cs
  | count + 1, cs =>
    if endsLine cs then cs
    else match cutQuoted cs with
      | some (_, cut) => skipLine count cut.rest
      | none =>
        let run := cs.takeWhile isInWord
        skipLine count (cs.drop (max 1 run.length))

/-- A header after its opening bracket, or its two opening brackets if it is that of an element. When the
last part of its key is missing, the rest of the line does not matter. -/
def header (isElement : Bool) : Reader (List String) := fun cs =>
  let (parts, rest) := keyParts (cs.length + 1) (dropGap cs)
  match isElement, rest with
  | false, ']' :: rest => some (keyOf parts, rest)
  | true, ']' :: ']' :: rest => some (keyOf parts, rest)
  | true, ']' :: _ => none
  | _, rest =>
    if parts.getLast?.any Option.isNone then some (keyOf parts, skipLine rest.length rest) else none

/-- The value of an entry that has a line to itself. -/
def lineValue : Reader Value := fun cs =>
  if endsLine cs then some (.error .malformed, cs) else value maxDepth cs

/-- The form of a statement, with what its parts mean. -/
inductive Form
  /-- An entry. -/
  | entry (reading : Except Fault (List String × Value))
  /-- The header of a table. -/
  | header (reading : Except Fault (List String))
  /-- The header of an element of an array of tables. -/
  | element (reading : Except Fault (List String))

/-- The form of a statement, without the rest of its line. -/
def form : List Char → Option (Form × List Char)
  | '[' :: '[' :: rest => (header true rest).map fun r => (.element r.1, r.2)
  | '[' :: rest => (header false rest).map fun r => (.header r.1, r.2)
  | cs => (entry (fun cs => some (dropGap cs)) lineValue cs).map fun r => (.entry r.1, r.2)

/-- The forms of the statements of a text, of which there are fewer than `count`. -/
def forms : Nat → List Char → Option (List Form)
  | 0, _ => none
  | count + 1, cs =>
    match trivia false cs with
    | none => none
    | some [] => some []
    | some cs =>
      match form cs with
      | none => none
      | some (first, rest) =>
        match lineEnd rest with
        | none => none
        | some rest => (forms count rest).map fun others => first :: others

end SchemaModules.Toml
