import SchemaModules.Proofs.Declared

/-!
# Proofs: extraction with every cut checked

Cutting a text and subtracting numbers give an answer for all arguments here: a cut keeps what lies in
its range, and a difference is never below zero. So a result alone does not tell whether a range was
turned around, left the text or cut a character in two. This is extraction once more, where a cut and a
difference give nothing on such arguments, and then all of extraction gives nothing. Where the offsets
are aligned, each of its steps gives what the unchecked step does.
-/

namespace SchemaModules

open Text Lexical Declaration

/-! ## Cuts and differences -/

namespace Text

instance (cs : List Char) (n : Nat) : Decidable (Aligned cs n) :=
  inferInstanceAs (Decidable (byteLength (takeBytes n cs) = n))

/-- The characters of `cs` in the range from byte `start` to byte `stop`; nothing when the range is
turned around or leaves the text, or when one of its ends lies inside a character. -/
def slice? (cs : List Char) (start stop : Nat) : Option (List Char) :=
  if start ≤ stop ∧ stop ≤ byteLength cs ∧ Aligned cs start ∧ Aligned cs stop then
    some (slice cs start stop)
  else none

/-- What is left of `n` after taking `k` off, unless that is below zero. -/
def less? (n k : Nat) : Option Nat := if k ≤ n then some (n - k) else none

/-- The byte at which the first line feed stands, if there is one. -/
def lineFeed? : List Char → Option Nat
  | [] => none
  | c :: cs => if c = '\n' then some 0 else (lineFeed? cs).map (c.utf8Size + ·)

theorem slice?_eq_some_iff {cs middle : List Char} {start stop : Nat} :
    slice? cs start stop = some middle ↔ ∃ front back, cs = front ++ (middle ++ back) ∧
      start = byteLength front ∧ stop = byteLength front + byteLength middle := by
  unfold slice?
  constructor
  · intro h
    split at h
    · rename_i hbounds
      obtain ⟨hle, -, hstart, hstop⟩ := hbounds
      obtain ⟨front, part, back, rfl, hfront, hpart⟩ := hstart.exists_between hstop hle
      rw [slice_append hfront hpart] at h
      obtain rfl := Option.some.inj h
      exact ⟨front, back, rfl, hfront, hpart⟩
    · simp at h
  · rintro ⟨front, back, rfl, rfl, rfl⟩
    have hstop : Aligned (front ++ (middle ++ back)) (byteLength front + byteLength middle) := by
      rw [← byteLength_append, ← List.append_assoc]
      exact aligned_append ..
    rw [if_pos ⟨Nat.le_add_right .., hstop.le_byteLength, aligned_append .., hstop⟩,
      slice_append rfl rfl]

theorem slice?_eq {cs : List Char} {start stop : Nat} (hstart : Aligned cs start)
    (hstop : Aligned cs stop) (hle : start ≤ stop) :
    slice? cs start stop = some (slice cs start stop) :=
  if_pos ⟨hle, hstop.le_byteLength, hstart, hstop⟩

/-- A text can be cut behind each of its fronts. -/
theorem slice?_append (front back : List Char) :
    slice? (front ++ back) (byteLength front) (byteLength (front ++ back)) = some back :=
  slice?_eq_some_iff.mpr ⟨front, [], by simp, rfl, byteLength_append ..⟩

theorem less?_eq {n k : Nat} (h : k ≤ n) : less? n k = some (n - k) := if_pos h

/-- The text behind the first line feed starts one byte after it. -/
theorem lineFeed?_cases (cs : List Char) :
    lineFeed? cs = none ∧ afterLine cs = none ∨
      ∃ front back, cs = (front ++ ['\n']) ++ back ∧ lineFeed? cs = some (byteLength front) ∧
        afterLine cs = some back := by
  induction cs with
  | nil => exact Or.inl ⟨rfl, rfl⟩
  | cons c cs ih =>
    by_cases hc : c = '\n'
    · subst hc
      exact Or.inr ⟨[], cs, rfl, rfl, rfl⟩
    · rw [lineFeed?, if_neg hc, afterLine, if_neg hc]
      rcases ih with ⟨hnone, hafter⟩ | ⟨front, back, rfl, hsome, hafter⟩
      · exact Or.inl ⟨by rw [hnone]; rfl, hafter⟩
      · exact Or.inr ⟨c :: front, back, rfl, by rw [hsome]; rfl, hafter⟩

end Text

/-! ## Reading -/

namespace Lexical.Lexer

/-- The lexer after a closing brace in code, with one taken off the count of the innermost hole. -/
def closeBrace? (lx : Lexer) : Option Lexer :=
  match lx.holes with
  | [] => some lx
  | count :: outer =>
    if count = 0 then some { lx with mode := .quoted backtick, holes := outer }
    else (less? count 1).map fun left => { lx with holes := left :: outer }

/-- The lexer after reading `c`, where `next` is the character after `c`, if there is one. -/
def step? (lx : Lexer) (c : Char) (next : Option Char) : Option Lexer :=
  if lx.inCode && c = '}' then lx.closeBrace? else some (lx.step c next)

/-- The lexer after reading all of `cs`. -/
def run? : Lexer → List Char → Option Lexer
  | lx, [] => some lx
  | lx, c :: rest => (lx.step? c rest.head?).bind fun after => after.run? rest

theorem closeBrace?_eq (lx : Lexer) : lx.closeBrace? = some lx.closeBrace := by
  obtain ⟨mode, holes, paired⟩ := lx
  cases holes with
  | nil => rfl
  | cons count outer =>
    cases count with
    | zero => rfl
    | succ count =>
      rw [closeBrace?]
      dsimp only
      rw [if_neg (Nat.succ_ne_zero count), less?_eq (Nat.le_add_left 1 count)]
      rfl

theorem step?_eq (lx : Lexer) (c : Char) (next : Option Char) :
    lx.step? c next = some (lx.step c next) := by
  unfold step?
  split
  · rename_i h
    obtain ⟨hcode, hc⟩ := Bool.and_eq_true_iff.mp h
    obtain rfl : c = '}' := of_decide_eq_true hc
    obtain ⟨hmode, hpaired⟩ := inCode_iff.mp hcode
    have hquote : '}' ≠ backtick := by decide
    rw [closeBrace?_eq]
    simp [step, stepCode, hmode, hpaired, hquote]
  · rfl

theorem run?_eq (lx : Lexer) (cs : List Char) : lx.run? cs = some (lx.run cs) := by
  induction cs generalizing lx with
  | nil => rfl
  | cons c cs ih => rw [run?, step?_eq, Option.bind_some, ih, run]

end Lexical.Lexer

/-- The spans of a text that are covered by comments and strings. -/
def Lexical.inertSpans? (cs : List Char) : Option (List Span) :=
  (Lexer.start.run? cs).map fun _ => inertSpans cs

theorem Lexical.inertSpans?_eq (cs : List Char) : inertSpans? cs = some (inertSpans cs) := by
  rw [inertSpans?, Lexer.run?_eq]
  rfl

/-! ## The end of a declaration and its banner -/

namespace Declaration

/-- The number of bytes through a semicolon that only spaces and tabs precede, found from what is left
after them. -/
def terminatorLength? (cs : List Char) : Option Nat :=
  let trimmed := cs.dropWhile fun c => c = ' ' || c = '\t'
  if trimmed.head? = some ';' then (less? (byteLength cs) (byteLength trimmed)).map (· + 1)
  else some 0

/-- The byte after the declaration whose builder call opens at byte `call` of `cs`. -/
def declarationEnd? (cs : List Char) (call : Nat) : Option (Except Fault Nat) := do
  let rest ← slice? cs call (byteLength cs)
  let last ← Lexer.start.run? rest
  match balanceFrom .start [] call rest with
  | .closed stop =>
    let tail ← slice? cs stop (byteLength cs)
    let length ← terminatorLength? tail
    return .ok (stop + length)
  | .faulty fault => return .error fault
  | .unfinished depth => return .error (unfinishedFault last.mode depth)

/-- The text between byte `boundary` and byte `start`, without the rest of a line that begins before
the boundary. -/
def gapAbove? (cs : List Char) (boundary start : Nat) : Option (Option (List Char)) := do
  let gap ← slice? cs boundary start
  if boundary = 0 then return some gap
  else
    let above ← slice? cs 0 boundary
    if above.getLast? = some '\n' then return some gap
    else match lineFeed? gap with
      | none => return none
      | some feed =>
        let rest ← slice? gap (feed + 1) (byteLength gap)
        return some rest

/-- The banner in the text above a declaration. -/
def bannerIn (gap : List Char) : Option (List Char) :=
  let run := (trailingComments gap).map trimEnd
  if run.isEmpty then none else some (List.intercalate ['\n'] run)

theorem terminatorLength?_eq (cs : List Char) : terminatorLength? cs = some (terminatorLength cs) := by
  obtain ⟨room, tail, hparts, -, htail, hlen⟩ := exists_of_terminatorLength cs
  have hbytes := congrArg byteLength hparts
  rw [byteLength_append] at hbytes
  unfold terminatorLength?
  rw [htail, hlen]
  dsimp only
  split
  · rw [less?_eq (by omega), Option.map_some, hbytes, Nat.add_sub_cancel]
  · rfl

theorem declarationEnd?_eq {cs : List Char} {call : Nat} (h : Aligned cs call) :
    declarationEnd? cs call = some (declarationEnd cs call) := by
  obtain ⟨front, back, rfl, rfl⟩ := aligned_iff.mp h
  unfold declarationEnd? declarationEnd
  rw [slice?_append, dropBytes_append, Option.bind_eq_bind, Option.bind_some, Lexer.run?_eq,
    Option.bind_eq_bind, Option.bind_some]
  dsimp only
  cases hbalance : balanceFrom .start [] (byteLength front) back with
  | closed stop =>
    obtain ⟨call, rest, rfl, rfl, -⟩ := exists_of_balanceFrom hbalance
    dsimp only
    rw [← List.append_assoc, ← byteLength_append, slice?_append, dropBytes_append,
      Option.bind_eq_bind, Option.bind_some, terminatorLength?_eq]
    rfl
  | faulty fault => rfl
  | unfinished depth => rfl

theorem gapAbove?_eq {cs : List Char} {boundary start : Nat} (hboundary : Aligned cs boundary)
    (hstart : Aligned cs start) (hle : boundary ≤ start) :
    gapAbove? cs boundary start = some (gapAbove cs boundary start) := by
  unfold gapAbove? gapAbove
  rw [slice?_eq hboundary hstart hle, slice?_eq (aligned_zero cs) hboundary (Nat.zero_le _),
    slice_zero]
  simp only [Option.bind_eq_bind, Option.bind_some]
  by_cases hzero : boundary = 0
  · rw [if_pos hzero, if_pos (Or.inl hzero)]
    rfl
  by_cases hlast : (takeBytes boundary cs).getLast? = some '\n'
  · rw [if_neg hzero, if_pos hlast, if_pos (Or.inr hlast)]
    rfl
  rw [if_neg hzero, if_neg hlast, if_neg (by simp [hzero, hlast])]
  rcases lineFeed?_cases (slice cs boundary start) with
    ⟨hfeed, hafter⟩ | ⟨upper, rest, hgap, hfeed, hafter⟩
  · rw [hfeed, hafter]
    rfl
  · have hcut := slice?_append (upper ++ ['\n']) rest
    have hlen : byteLength (upper ++ ['\n']) = byteLength upper + 1 := byteLength_append ..
    rw [← hgap, hlen] at hcut
    rw [hfeed, hafter]
    dsimp only
    rw [hcut]
    rfl

theorem banner?_eq_bind (cs : List Char) (boundary start : Nat) :
    banner? cs boundary start = (gapAbove cs boundary start).bind bannerIn := by
  unfold banner?
  cases gapAbove cs boundary start <;> rfl

end Declaration

/-! ## The catalog -/

namespace Catalog

/-- What follows byte `cursor` of the working copy of `cs`: the text up to the first span as it is,
that of the span blanked out, and so on. -/
def blankSpansFrom? (cs : List Char) : Nat → List Span → Option (List Char)
  | cursor, [] => slice? cs cursor (byteLength cs)
  | cursor, s :: spans => do
    let kept ← slice? cs cursor s.start
    let covered ← slice? cs s.start s.stop
    let rest ← blankSpansFrom? cs s.stop spans
    return kept ++ (covered.flatMap blanked ++ rest)

/-- The working copy of `cs` in which `spans` are blanked out. -/
def blankSpans? (cs : List Char) (spans : List Span) : Option (List Char) := blankSpansFrom? cs 0 spans

/-- The entity that a header declares, where its declaration ends at byte `stop`. -/
def entityOf? (source : List Char) (header : Occurrence EntityHeader) (boundary stop : Nat) :
    Option Entity := do
  let body ← slice? source header.offset stop
  let gap ← gapAbove? source boundary header.offset
  return {
    name := String.ofList header.value.name
    physicalName := String.ofList header.value.physicalName
    bodyText := String.ofList body
    leadingComment := (gap.bind bannerIn).map String.ofList
    offset := header.offset }

/-- The entities that the headers declare, where the entity before them ends at byte `consumed`. -/
def collectEntities? (source working : List Char) (inert aliasSpans : List Span) :
    Nat → List (Occurrence EntityHeader) → Option (Except ExtractError (List Entity))
  | _, [] => some (.ok [])
  | consumed, header :: rest =>
    if header.offset < consumed || within inert header.offset then
      collectEntities? source working inert aliasSpans consumed rest
    else do
      match ← declarationEnd? working (header.offset + byteLength header.value.lead) with
      | .error fault => return .error (.unterminated (String.ofList header.value.name) fault)
      | .ok stop =>
        let entity ← entityOf? source header (bannerBoundary aliasSpans consumed header.offset) stop
        match ← collectEntities? source working inert aliasSpans stop rest with
        | .error e => return .error e
        | .ok entities => return .ok (entity :: entities)

/-- The catalog of what was collected. -/
def assemble (origin : String) (statements : List (Occurrence AliasStatement)) :
    Except ExtractError (List Entity) → Except ExtractError Catalog
  | .error e => .error e
  | .ok entities =>
    let aliases := statements.map aliasOf
    if entities.isEmpty then .error (.noEntities origin)
    else match firstRepeated? [] (entities.map Entity.name ++ aliases.map Alias.name) with
      | some name => .error (.duplicateName name)
      | none => .ok (ofLists entities aliases)

/-- The catalog of a source, with every cut and every difference checked. -/
def extract? (source origin : String) : Option (Except ExtractError Catalog) := do
  let cs := source.toList
  let inert ← inertSpans? cs
  let statements := liveAliases cs inert
  let aliasSpans := statements.map Occurrence.span
  let working ← blankSpans? cs aliasSpans
  let collected ← collectEntities? cs working inert aliasSpans 0 (occurrences entityHeader working)
  return assemble origin statements collected

theorem entityOf?_eq {source : List Char} {header : Occurrence EntityHeader} {boundary stop : Nat}
    (hboundary : Aligned source boundary) (hstart : Aligned source header.offset)
    (hstop : Aligned source stop) (habove : boundary ≤ header.offset) (hbody : header.offset ≤ stop) :
    entityOf? source header boundary stop = some (entityOf source header boundary stop) := by
  unfold entityOf? entityOf
  rw [slice?_eq hstart hstop hbody, gapAbove?_eq hboundary hstart habove, banner?_eq_bind]
  rfl

theorem extract_eq_assemble (source origin : String) :
    extract source origin = assemble origin (liveAliases source.toList (inertSpans source.toList))
      (collectEntities source.toList (workingCopy source.toList) (inertSpans source.toList)
        (aliasSpans source.toList) 0 (occurrences entityHeader (workingCopy source.toList))) := by
  rfl

end Catalog

end SchemaModules
