import SchemaModules.Lexical.Lexer
import SchemaModules.Text.Bytes

/-!
# Inert text

Comments and strings are *inert*: a declaration does not start inside one. The inert spans of a text
are the stretches in which the lexer is out of code, in order; a hole splits its template literal into
two. A comment or string that never ends reaches to the end of the text.
-/

namespace SchemaModules.Lexical

open Text

/-- The inert spans of `cs`, which starts at byte `pos`. When the lexer is out of code, `opened` is
the byte at which it left it. -/
def inertSpansFrom : Lexer → Option Nat → Nat → List Char → List Span
  | _, opened, pos, [] => opened.toList.map fun start => ⟨start, pos⟩
  | lx, opened, pos, c :: rest =>
    let after := lx.step c rest.head?
    let stop := pos + c.utf8Size
    if lx.inCode && !after.inCode then inertSpansFrom after (some pos) stop rest
    else if !lx.inCode && after.inCode then
      ⟨opened.getD pos, stop⟩ :: inertSpansFrom after none stop rest
    else inertSpansFrom after opened stop rest

/-- The spans of a text that are covered by comments and strings, in order. -/
def inertSpans (cs : List Char) : List Span := inertSpansFrom .start none 0 cs

/-- Whether byte `pos` lies in one of the spans, which stand in order: only the first span that ends
after it can hold it. -/
def within (spans : List Span) (pos : Nat) : Bool :=
  match spans.find? fun span => pos < span.stop with
  | some span => span.start ≤ pos
  | none => false

end SchemaModules.Lexical
