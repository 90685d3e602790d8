import SchemaModules.Text.Alphabetic
import SchemaModules.Text.Mark
import SchemaModules.Text.Number
import SchemaModules.Text.Recent

/-!
# Characters of names

Two classes of characters make up names. A *word character* may stand in the name that a declaration
introduces; an *identifier character* is one that text is not cut at when it is searched for
references. Both hold the alphabetic characters, the decimal digits and `_`, and each holds characters
that the other lacks: a word may carry combining marks and joiners, an identifier may carry numbers
such as `²` and the letters that are recent.
-/

namespace SchemaModules.Text

/-- The ranges of the category `Connector_Punctuation`, the underscore among them. -/
def connectorRanges : List (Nat × Nat) :=
  [(0x5F, 0x5F), (0x203F, 0x2040), (0x2054, 0x2054), (0xFE33, 0xFE34), (0xFE4D, 0xFE4F),
   (0xFF3F, 0xFF3F)]

/-- The joiner and the non-joiner, which have no width. -/
def isJoiner (c : Char) : Bool := c = '\u200C' || c = '\u200D'

/-- A character of the name that a declaration introduces. -/
def isWordChar (c : Char) : Bool :=
  !isRecent c &&
    (isAlphabetic c || isMark c || isDecimalDigit c || inRanges connectorRanges c.toNat || isJoiner c)

/-- A character that references are not cut at. -/
def isIdentChar (c : Char) : Bool := isAlphabetic c || isNumeric c || c = '_'

end SchemaModules.Text
