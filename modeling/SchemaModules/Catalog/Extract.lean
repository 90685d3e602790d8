import SchemaModules.Catalog.Basic
import SchemaModules.Declaration.Banner
import SchemaModules.Declaration.Extent
import SchemaModules.Declaration.Pattern
import SchemaModules.Lexical.Inert

/-!
# Extracting the catalog of a source

Aliases are found first, over the whole source, and then blanked out of a working copy, so that the
search for entities never meets them. The working copy has the bytes of the source at the same
offsets, with spaces in place of the aliases. Declarations that start in a comment or string are left
out, and so are headers inside an earlier entity, which belong to its body.
-/

namespace SchemaModules

open Text Lexical Declaration

/-- Why a source has no catalog. -/
inductive ExtractError
  /-- The source declares no entity. -/
  | noEntities (origin : String)
  /-- Two declarations have the same name. -/
  | duplicateName (name : String)
  /-- An entity's declaration does not end. -/
  | unterminated (name : String) (fault : Fault)
  deriving Repr, DecidableEq

/-- The wording of the error. -/
def ExtractError.message : ExtractError → String
  | .noEntities origin =>
    "No entities found in " ++ origin ++ ": no `export const <name> = <builder>Table(\"...\", " ++
      "\x7b ... \x7d)` declaration matched"
  | .duplicateName name =>
    s!"Duplicate symbol name `{name}`: every entity and alias must be declared exactly once"
  | .unterminated name fault => "Unterminated declaration `" ++ name ++ "`: " ++ fault.message

namespace Catalog

/-- The alias statements of a source outside its inert spans. -/
def liveAliases (source : List Char) (inert : List Span) : List (Occurrence AliasStatement) :=
  (occurrences aliasStatement source).filter fun o => !within inert o.offset

/-- The alias that a statement declares, not resolved yet. -/
def aliasOf (o : Occurrence AliasStatement) : Alias where
  name := String.ofList o.value.name
  referencedEntity := String.ofList o.value.referenced
  shape := o.value.shape
  bodyText := String.ofList o.text
  resolved := false
  offset := o.offset

/-- What stands for a character that is blanked out: as many spaces as it has bytes, and a line feed
for itself. -/
def blanked (c : Char) : List Char :=
  if c = '\n' then [c] else List.replicate c.utf8Size ' '

/-- `cs`, which starts at byte `pos`, with every character inside the spans blanked out. -/
def blankSpansFrom (spans : List Span) : Nat → List Char → List Char
  | _, [] => []
  | pos, c :: rest =>
    let shown := if spans.any fun s => s.start ≤ pos && pos < s.stop then blanked c else [c]
    shown ++ blankSpansFrom spans (pos + c.utf8Size) rest

/-- The working copy of a source in which `spans` are blanked out. -/
def blankSpans (source : List Char) (spans : List Span) : List Char :=
  blankSpansFrom spans 0 source

/-- Where the comments above a declaration at byte `start` may begin: after the entity before it, which
ends at byte `consumed`, and after every alias that ends by then. -/
def bannerBoundary (aliasSpans : List Span) (consumed start : Nat) : Nat :=
  aliasSpans.foldl (fun bound s => if s.stop ≤ start then max bound s.stop else bound) consumed

/-- The entity that a header declares, where its declaration ends at byte `stop`. -/
def entityOf (source : List Char) (header : Occurrence EntityHeader) (boundary stop : Nat) :
    Entity where
  name := String.ofList header.value.name
  physicalName := String.ofList header.value.physicalName
  bodyText := String.ofList (slice source header.offset stop)
  leadingComment := (banner? source boundary header.offset).map String.ofList
  offset := header.offset

/-- The entities that the headers declare, where the entity before them ends at byte `consumed`. -/
def collectEntities (source working : List Char) (inert aliasSpans : List Span) :
    Nat → List (Occurrence EntityHeader) → Except ExtractError (List Entity)
  | _, [] => .ok []
  | consumed, header :: rest =>
    if header.offset < consumed || within inert header.offset then
      collectEntities source working inert aliasSpans consumed rest
    else
      match declarationEnd working (header.offset + byteLength header.value.lead) with
      | .error fault => .error (.unterminated (String.ofList header.value.name) fault)
      | .ok stop =>
        let boundary := bannerBoundary aliasSpans consumed header.offset
        match collectEntities source working inert aliasSpans stop rest with
        | .error e => .error e
        | .ok entities => .ok (entityOf source header boundary stop :: entities)

/-- The first name that has already stood in the list, or among the names `seen` before it. -/
def firstRepeated? : List String → List String → Option String
  | _, [] => none
  | seen, name :: rest =>
    if seen.contains name then some name else firstRepeated? (name :: seen) rest

/-- The catalog of a source. In messages the source is called `origin`. -/
def extract (source origin : String) : Except ExtractError Catalog :=
  let cs := source.toList
  let inert := inertSpans cs
  let statements := liveAliases cs inert
  let aliasSpans := statements.map Occurrence.span
  let working := blankSpans cs aliasSpans
  match collectEntities cs working inert aliasSpans 0 (occurrences entityHeader working) with
  | .error e => .error e
  | .ok entities =>
    let aliases := statements.map aliasOf
    if entities.isEmpty then .error (.noEntities origin)
    else match firstRepeated? [] (entities.map Entity.name ++ aliases.map Alias.name) with
      | some name => .error (.duplicateName name)
      | none => .ok (ofLists entities aliases)

end Catalog

end SchemaModules
