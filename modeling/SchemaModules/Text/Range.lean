/-!
# Ranges of code points

A character property is a list of ranges in increasing order. Looking a code point up walks the list
and stops at the first range above it, so a character near the start of the code space is decided
at once.
-/

namespace SchemaModules.Text

/-- Whether `n` lies in one of the ranges, which stand in increasing order. -/
def inRanges : List (Nat × Nat) → Nat → Bool
  | [], _ => false
  | (lo, hi) :: rest, n => if n < lo then false else n ≤ hi || inRanges rest n

end SchemaModules.Text
