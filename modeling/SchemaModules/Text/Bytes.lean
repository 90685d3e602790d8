/-!
# Byte offsets

Positions in a text count the bytes of its UTF-8 form. A text is a list of characters, and cutting it
at a byte offset keeps the characters that lie wholly before the offset. The two halves of a cut always
make up the text; a cut is *aligned* when no character lies across it.
-/

namespace SchemaModules.Text

/-- The number of bytes of the UTF-8 form of `cs`. -/
def byteLength : List Char → Nat
  | [] => 0
  | c :: cs => c.utf8Size + byteLength cs

/-- The characters of `cs` that end at or before byte `n`. -/
def takeBytes : Nat → List Char → List Char
  | _, [] => []
  | n, c :: cs => if c.utf8Size ≤ n then c :: takeBytes (n - c.utf8Size) cs else []

/-- The characters of `cs` from the first one that ends after byte `n`. -/
def dropBytes : Nat → List Char → List Char
  | _, [] => []
  | n, c :: cs => if c.utf8Size ≤ n then dropBytes (n - c.utf8Size) cs else c :: cs

/-- A half-open range of byte offsets. -/
structure Span where
  /-- The first byte of the range. -/
  start : Nat
  /-- The first byte after the range. -/
  stop : Nat
  deriving Repr, DecidableEq

/-- The characters of `cs` in the range from byte `start` to byte `stop`. -/
def slice (cs : List Char) (start stop : Nat) : List Char :=
  takeBytes (stop - start) (dropBytes start cs)

/-- Byte `n` of `cs` is the start of a character, or the end of the text. -/
def Aligned (cs : List Char) (n : Nat) : Prop := byteLength (takeBytes n cs) = n

@[simp] theorem byteLength_nil : byteLength [] = 0 := rfl

@[simp] theorem byteLength_cons (c : Char) (cs : List Char) :
    byteLength (c :: cs) = c.utf8Size + byteLength cs := rfl

@[simp] theorem byteLength_append (xs ys : List Char) :
    byteLength (xs ++ ys) = byteLength xs + byteLength ys := by
  induction xs with
  | nil => simp
  | cons c xs ih => simp [ih, Nat.add_assoc]

/-- A cut loses nothing. -/
theorem takeBytes_append_dropBytes (n : Nat) (cs : List Char) :
    takeBytes n cs ++ dropBytes n cs = cs := by
  induction cs generalizing n with
  | nil => rfl
  | cons c cs ih =>
    by_cases h : c.utf8Size ≤ n
    · simp [takeBytes, dropBytes, h, ih]
    · simp [takeBytes, dropBytes, h]

/-- Cutting at the length of a front part gives that part back. -/
theorem takeBytes_append_byteLength (xs ys : List Char) :
    takeBytes (byteLength xs) (xs ++ ys) = xs ∧ dropBytes (byteLength xs) (xs ++ ys) = ys := by
  induction xs with
  | nil =>
    cases ys with
    | nil => exact ⟨rfl, rfl⟩
    | cons c ys =>
      have h : ¬ c.utf8Size ≤ 0 := by have := c.utf8Size_pos; omega
      simp [takeBytes, dropBytes, byteLength, h]
  | cons c xs ih => simp [takeBytes, dropBytes, ih]

end SchemaModules.Text
