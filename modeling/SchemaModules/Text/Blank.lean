import SchemaModules.Text.Range

/-!
# Blank characters and trimming

A blank is a character with the Unicode property `White_Space`. Texts are trimmed of blanks at either
end; a text of blanks alone is trimmed to nothing.
-/

namespace SchemaModules.Text

/-- The ranges of the property `White_Space`. -/
def blankRanges : List (Nat × Nat) :=
  [(0x09, 0x0D), (0x20, 0x20), (0x85, 0x85), (0xA0, 0xA0), (0x1680, 0x1680), (0x2000, 0x200A),
   (0x2028, 0x2029), (0x202F, 0x202F), (0x205F, 0x205F), (0x3000, 0x3000)]

/-- A character that separates words and can be seen only as room. -/
def isBlank (c : Char) : Bool := inRanges blankRanges c.toNat

/-- `cs` without the blanks at its start. -/
def trimStart (cs : List Char) : List Char := cs.dropWhile isBlank

/-- `cs` without the blanks at its end. -/
def trimEnd (cs : List Char) : List Char := (cs.reverse.dropWhile isBlank).reverse

/-- Whether `cs` holds nothing but blanks. -/
def allBlank (cs : List Char) : Bool := cs.all isBlank

end SchemaModules.Text
