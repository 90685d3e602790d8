import SchemaModules.Lexical.Lexer
import SchemaModules.Text.Bytes

/-!
# The extent of a declaration

A declaration ends at the bracket that closes its builder call, or at a semicolon on the same line
after it. Only brackets in code count; those of comments and strings do not. The brackets must nest: a
closer that does not fit the last opener, or a text that ends first, is a fault.
-/

namespace SchemaModules.Declaration

open Lexical Text

/-- Why a declaration has no end. -/
inductive Fault
  /-- A closer with nothing open. -/
  | unexpectedCloser (found : Char)
  /-- A closer that does not fit the last opener. -/
  | wrongCloser (expected found : Char)
  /-- A string that the text ends in. -/
  | openString (quote : Char)
  /-- A comment that the text ends in. -/
  | openComment
  /-- Brackets that the text leaves open. -/
  | openBrackets (count : Nat)
  deriving Repr, DecidableEq

/-- The wording of a fault. -/
def Fault.message : Fault → String
  | .unexpectedCloser found => s!"unexpected `{found}`"
  | .wrongCloser expected found => s!"expected `{expected}` but found `{found}`"
  | .openString quote => s!"string opened with {quote} never closes"
  | .openComment => "block comment never closes"
  | .openBrackets count => s!"{count} bracket(s) still open at end of input"

/-- The bracket that closes `c`, if `c` opens one. -/
def closerOf? (c : Char) : Option Char :=
  if c = '(' then some ')' else if c = '{' then some '}' else if c = '[' then some ']' else none

/-- Whether `c` closes a bracket. -/
def isCloser (c : Char) : Bool := c = ')' || c = '}' || c = ']'

/-- How a search for the end of a bracket went. -/
inductive Balance
  /-- The bracket closed, and `stop` is the byte after its closer. -/
  | closed (stop : Nat)
  /-- A closer did not fit. -/
  | faulty (fault : Fault)
  /-- The text ended with `depth` brackets open. -/
  | unfinished (depth : Nat)
  deriving Repr, DecidableEq

/-- Reads on to the closer of the first open bracket, while the lexer `lx` tells code from other text.
The closers still to come are in `stack`, the next one first, and the text starts at byte `pos`. -/
def balanceFrom (lx : Lexer) : List Char → Nat → List Char → Balance
  | stack, _, [] => .unfinished stack.length
  | stack, pos, c :: rest =>
    let after := lx.step c rest.head?
    let stop := pos + c.utf8Size
    if lx.inCode && after.inCode then
      match closerOf? c with
      | some closer => balanceFrom after (closer :: stack) stop rest
      | none =>
        if isCloser c then
          match stack with
          | [] => .faulty (.unexpectedCloser c)
          | expected :: outer =>
            if c ≠ expected then .faulty (.wrongCloser expected c)
            else if outer.isEmpty then .closed stop
            else balanceFrom after outer stop rest
        else balanceFrom after stack stop rest
    else balanceFrom after stack stop rest

/-- The number of bytes from the start of `cs` through a semicolon that only spaces and tabs precede;
zero if there is none. -/
def terminatorLength (cs : List Char) : Nat :=
  let room := cs.takeWhile fun c => c = ' ' || c = '\t'
  if (cs.drop room.length).head? = some ';' then room.length + 1 else 0

/-- The fault of a text that ends with `depth` brackets open: a string or comment that it ends in is
named first. -/
def unfinishedFault (mode : Mode) (depth : Nat) : Fault :=
  match mode with
  | .quoted quote => .openString quote
  | .blockComment => .openComment
  | _ => .openBrackets depth

/-- The byte after the declaration whose builder call opens at byte `call` of `cs`. -/
def declarationEnd (cs : List Char) (call : Nat) : Except Fault Nat :=
  let rest := dropBytes call cs
  match balanceFrom .start [] call rest with
  | .closed stop => .ok (stop + terminatorLength (dropBytes stop cs))
  | .faulty fault => .error fault
  | .unfinished depth => .error (unfinishedFault (Lexer.start.run rest).mode depth)

end SchemaModules.Declaration
