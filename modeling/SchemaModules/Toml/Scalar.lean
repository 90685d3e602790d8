import SchemaModules.Text.Split
import SchemaModules.Toml.Value

/-!
# Numbers and points in time

The scalars of TOML that are not strings are words, with dots or gaps between them. Where a scalar ends
is decided first; then it is checked against the forms of truth values, numbers, dates and times. What a
number is worth does not matter here.
-/

namespace SchemaModules.Toml

/-! ## Where a scalar ends -/

/-- A space or a tab. -/
def isGap (c : Char) : Bool := c = ' ' || c = '\t'

/-- A quote of either kind. -/
def isQuoteMark (c : Char) : Bool := c = '"' || c = '\''

/-- The signs and line breaks that a word ends at, and that are not part of it. -/
def wordEnds : List Char := ['.', '=', ',', '[', ']', '{', '}', '#', '\r', '\n']

/-- A character that may stand in a word. -/
def isInWord (c : Char) : Bool := !(isGap c || wordEnds.contains c)

/-- Whether a word begins at the start of a text. A quote does not begin one, but may stand in it. -/
def startsWord (cs : List Char) : Bool := cs.head?.any fun c => isInWord c && !isQuoteMark c

/-- The scalar at the start of a text: words and dots, and gaps that a word follows. `inWord` says that
the character before the text is of a word. -/
def scalarRun : Bool → List Char → List Char
  | _, [] => []
  | inWord, c :: cs =>
    if c = '.' then c :: scalarRun false cs
    else if isGap c then
      if startsWord (cs.dropWhile isGap) then c :: scalarRun false cs else []
    else if isInWord c && (inWord || !isQuoteMark c) then c :: scalarRun true cs
    else []

/-! ## The forms of scalars -/

/-- Digits with single underscores between them. -/
def isDigits (isDigit : Char → Bool) : List Char → Bool
  | [] => false
  | [c] => isDigit c
  | c :: '_' :: cs => isDigit c && isDigits isDigit cs
  | c :: d :: cs => isDigit c && isDigits isDigit (d :: cs)

/-- `cs` without a sign at its start. -/
def dropSign : List Char → List Char
  | '+' :: cs => cs
  | '-' :: cs => cs
  | cs => cs

/-- A decimal integer without a sign: zero, or digits that do not begin with zero. -/
def isNatural (cs : List Char) : Bool :=
  cs = ['0'] || (cs.head? != some '0' && isDigits Char.isDigit cs)

/-- A hexadecimal digit. -/
def isHexDigit (c : Char) : Bool := c.isDigit || ('a' ≤ c && c ≤ 'f') || ('A' ≤ c && c ≤ 'F')

/-- Whether the groups of an integer that come after its first may be what they are: each begins with a
hexadecimal digit, and each but the last ends with one. -/
def areLaterGroups : List (List Char) → Bool
  | [] => true
  | [group] => group.head?.any isHexDigit
  | group :: rest =>
    group.head?.any isHexDigit && group.getLast?.any isHexDigit && areLaterGroups rest

/-- A character that may not stand in a later group of an integer. -/
def isBarred (c : Char) : Bool := c = ' ' || c = '.' || c = 'e' || c = 'E'

/-- A decimal integer without a sign: zero, or groups with underscores between them, of which the first
is of digits and does not begin with zero. The later groups are looked at at their ends only, but no
space, dot or letter of an exponent may stand in them. -/
def isGrouped (cs : List Char) : Bool :=
  match Text.pieces (fun c => c = '_') cs with
  | [] => false
  | first :: later =>
    isNatural first && (later.isEmpty || first != ['0']) && areLaterGroups later &&
      later.all fun group => !group.any isBarred

/-- An integer in any base. Nothing need follow the mark of a base. -/
def isInteger : List Char → Bool
  | '0' :: 'x' :: cs => cs.isEmpty || isDigits isHexDigit cs
  | '0' :: 'o' :: cs => cs.isEmpty || isDigits (fun c => '0' ≤ c && c ≤ '7') cs
  | '0' :: 'b' :: cs => cs.isEmpty || isDigits (fun c => c = '0' || c = '1') cs
  | cs => isGrouped (dropSign cs)

/-- A float: an integer with a fraction, an exponent or both, or one of the special values. -/
def isFloat (cs : List Char) : Bool :=
  let cs := dropSign cs
  let isExponent := fun c => c = 'e' || c = 'E'
  let mantissa := cs.takeWhile fun c => !isExponent c
  let exponent := cs.drop mantissa.length
  let whole := mantissa.takeWhile fun c => c != '.'
  let fraction := mantissa.drop whole.length
  cs = "inf".toList || cs = "nan".toList ||
    (isNatural whole && (fraction.isEmpty || isDigits Char.isDigit fraction.tail) &&
      (exponent.isEmpty || isDigits Char.isDigit (dropSign exponent.tail)) &&
      !(fraction.isEmpty && exponent.isEmpty))

/-- The number that exactly two digits write. -/
def twoDigits? : List Char → Option Nat
  | [a, b] =>
    if a.isDigit && b.isDigit then some (10 * (a.toNat - '0'.toNat) + (b.toNat - '0'.toNat)) else none
  | _ => none

/-- The number of days of a month. -/
def daysIn (year month : Nat) : Nat :=
  if month = 2 then if year % 4 = 0 && (year % 100 != 0 || year % 400 = 0) then 29 else 28
  else if month = 4 || month = 6 || month = 9 || month = 11 then 30
  else 31

/-- A date: year, month and day with hyphens between them. -/
def isDate : List Char → Bool
  | [y1, y2, y3, y4, '-', m1, m2, '-', d1, d2] =>
    match twoDigits? [y1, y2], twoDigits? [y3, y4], twoDigits? [m1, m2], twoDigits? [d1, d2] with
    | some century, some year, some month, some day =>
      1 ≤ month && month ≤ 12 && 1 ≤ day && day ≤ daysIn (100 * century + year) month
    | _, _, _, _ => false
  | _ => false

/-- A number of two digits below a bound. -/
def isBelow (bound : Nat) (cs : List Char) : Bool :=
  match twoDigits? cs with
  | some n => n < bound
  | none => false

/-- A time of day: hours and minutes, perhaps with seconds and a fraction of a second. -/
def isTime : List Char → Bool
  | h1 :: h2 :: ':' :: m1 :: m2 :: rest =>
    isBelow 24 [h1, h2] && isBelow 60 [m1, m2] &&
      match rest with
      | [] => true
      | ':' :: s1 :: s2 :: fraction =>
        isBelow 61 [s1, s2] &&
          match fraction with
          | [] => true
          | '.' :: digits => !digits.isEmpty && digits.all Char.isDigit
          | _ => false
      | _ => false
  | _ => false

/-- A time of day with an offset from universal time, or without one. -/
def isOffsetTime (cs : List Char) : Bool :=
  let clock := cs.takeWhile fun c => c.isDigit || c = ':' || c = '.'
  isTime clock &&
    match cs.drop clock.length with
    | [] => true
    | ['Z'] => true
    | ['z'] => true
    | [sign, h1, h2, ':', m1, m2] =>
      (sign = '+' || sign = '-') && isBelow 24 [h1, h2] && isBelow 60 [m1, m2]
    | _ => false

/-- A date, a time of day, or a date and a time with one character between them. -/
def isMoment (cs : List Char) : Bool :=
  isDate cs || isTime cs ||
    (isDate (cs.take 10) &&
      match cs.drop 10 with
      | separator :: rest =>
        (separator = 'T' || separator = 't' || separator = ' ') && isOffsetTime rest
      | [] => false)

/-- A truth value, a number or a point in time. -/
def scalar? (cs : List Char) : Option Value :=
  if cs = "true".toList then some (.boolean true)
  else if cs = "false".toList then some (.boolean false)
  else if isInteger cs || isFloat cs then some (.number (String.ofList cs))
  else if isMoment cs then some (.moment (String.ofList cs))
  else none

end SchemaModules.Toml
