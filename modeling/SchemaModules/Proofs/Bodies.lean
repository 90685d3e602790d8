import SchemaModules.Proofs.Comments
import SchemaModules.Proofs.Declared
import SchemaModules.Proofs.Modules

/-!
# Proofs: moving a declaration keeps its lexical meaning

The body of a module is made of declarations and of filler between them. The filler leaves the lexer in
code, and so do the declarations, which are standalone. So each declaration is read in the module as it
is read in the source.
-/

namespace SchemaModules

open Text Lexical Declaration Catalog

/-- A part of the body of a module. -/
inductive Part
  /-- What stands above or between declarations. -/
  | filler (text : List Char)
  /-- The declaration of a symbol. -/
  | declared (s : Symbol)

namespace Part

/-- The text of the part. -/
def text : Part → List Char
  | filler text => text
  | declared s => s.bodyText.toList

/-- The symbol that the part declares. -/
def symbol? : Part → Option Symbol
  | filler _ => none
  | declared s => some s

/-- The parts that the texts of symbols are made of, with an empty line between two. -/
def ofSymbols (keepComments : Bool) : List Symbol → List Part
  | [] => []
  | [s] => [filler (s.preamble keepComments).toList, declared s]
  | s :: t :: rest =>
    filler (s.preamble keepComments).toList :: declared s :: filler ['\n', '\n'] ::
      ofSymbols keepComments (t :: rest)

theorem flatMap_text_ofSymbols (keepComments : Bool) (symbols : List Symbol) :
    (ofSymbols keepComments symbols).flatMap text =
      ("\n\n".intercalate (symbols.map (Symbol.moduleText keepComments))).toList := by
  induction symbols with
  | nil => rfl
  | cons s symbols ih =>
    cases symbols with
    | nil =>
      rw [List.map_singleton, String.intercalate_singleton, Symbol.moduleText_eq,
        String.toList_append]
      exact congrArg _ (List.append_nil _)
    | cons t rest =>
      rw [List.map_cons, List.map_cons, String.intercalate_cons_cons, ← List.map_cons,
        String.toList_append, String.toList_append, Symbol.moduleText_eq, String.toList_append, ← ih]
      simp only [ofSymbols, List.flatMap_cons, text, List.append_assoc]
      rfl

theorem filterMap_symbol?_ofSymbols (keepComments : Bool) (symbols : List Symbol) :
    (ofSymbols keepComments symbols).filterMap symbol? = symbols := by
  induction symbols with
  | nil => rfl
  | cons s symbols ih =>
    cases symbols with
    | nil => rfl
    | cons t rest =>
      show s :: (ofSymbols keepComments (t :: rest)).filterMap symbol? = s :: t :: rest
      rw [ih]

/-- The part is standalone if it is a declaration, and holds no code if it is not. -/
def Settled : Part → Prop
  | filler text => Filler text
  | declared s => Standalone s.bodyText.toList

theorem Settled.inCode_advance {part : Part} (h : part.Settled) {lx : Lexer}
    (hcode : lx.inCode = true) (next : Option Char) :
    (lx.advance part.text next).inCode = true := by
  cases part with
  | filler text => exact (h lx hcode next).inCode_advance
  | declared s => exact (h lx hcode next).2

theorem inCode_advance_flatMap {parts : List Part} (h : ∀ part ∈ parts, part.Settled) {lx : Lexer}
    (hcode : lx.inCode = true) (next : Option Char) :
    (lx.advance (parts.flatMap text) next).inCode = true := by
  induction parts generalizing lx with
  | nil => exact hcode
  | cons part parts ih =>
    rw [List.flatMap_cons, Lexer.advance_append]
    have hpart := (h part (List.mem_cons_self ..)).inCode_advance hcode
    exact ih (fun part' hpart' => h part' (List.mem_cons_of_mem _ hpart')) (hpart _)

theorem settled_of_mem_ofSymbols {keepComments : Bool} {symbols : List Symbol}
    (h : ∀ s ∈ symbols, Filler (s.preamble keepComments).toList ∧ Standalone s.bodyText.toList)
    {part : Part} (hpart : part ∈ ofSymbols keepComments symbols) : part.Settled := by
  induction symbols with
  | nil => simp [ofSymbols] at hpart
  | cons s symbols ih =>
    obtain ⟨hpreamble, hbody⟩ := h s (List.mem_cons_self ..)
    cases symbols with
    | nil =>
      have hcases : part = filler (s.preamble keepComments).toList ∨ part = declared s := by
        simpa [ofSymbols] using hpart
      rcases hcases with rfl | rfl
      · exact hpreamble
      · exact hbody
    | cons t rest =>
      rw [ofSymbols] at hpart
      rcases List.mem_cons.mp hpart with rfl | hpart
      · exact hpreamble
      rcases List.mem_cons.mp hpart with rfl | hpart
      · exact hbody
      rcases List.mem_cons.mp hpart with rfl | hpart
      · exact filler_blanks (by decide)
      · exact ih (fun s' hs' => h s' (List.mem_cons_of_mem _ hs')) hpart

end Part

namespace Partition

variable {source origin : String} {config : Config} {p : Partition} {m : Module}

/-- The body of the module is made of the parts, and each of them is read as it should be. -/
structure Transcribed (source : List Char) (p : Partition) (m : Module) (parts : List Part) :
    Prop where
  /-- The parts make up the body. -/
  text : parts.flatMap Part.text = m.body.toList
  /-- They declare the symbols that the module owns, in source order. -/
  symbols : parts.filterMap Part.symbol? = p.symbolsOf m.name
  /-- A declaration is what stands in the source at the symbol's offset. -/
  copied : ∀ s ∈ p.symbolsOf m.name,
    slice source s.offset (s.offset + byteLength s.bodyText.toList) = s.bodyText.toList
  /-- A byte of a declaration is inert in the body when it is inert in the source. -/
  declared : ∀ front s back, parts = front ++ Part.declared s :: back →
    ∀ k < byteLength s.bodyText.toList,
      within (inertSpans m.body.toList) (byteLength (front.flatMap Part.text) + k) =
        within (inertSpans source) (s.offset + k)
  /-- A character of the filler is a blank or in a line comment. -/
  filler : ∀ front text back, parts = front ++ Part.filler text :: back →
    ∀ before c after, text = before ++ c :: after → isBlank c = true ∨
      (Lexer.start.advance (front.flatMap Part.text ++ (before ++ [c]))
        (after ++ back.flatMap Part.text).head?).mode = .lineComment

theorem exists_char_of_lt {cs : List Char} {k : Nat} (h : k < byteLength cs) :
    ∃ before c after, cs = before ++ c :: after ∧ byteLength before ≤ k ∧
      k < byteLength before + c.utf8Size := by
  induction cs generalizing k with
  | nil => simp at h
  | cons c cs ih =>
    by_cases hk : k < c.utf8Size
    · exact ⟨[], c, cs, rfl, Nat.zero_le k, by simpa using hk⟩
    · rw [byteLength_cons] at h
      obtain ⟨before, d, after, rfl, hle, hlt⟩ := ih (k := k - c.utf8Size) (by omega)
      refine ⟨c :: before, d, after, rfl, ?_, ?_⟩
      · rw [byteLength_cons]
        omega
      · rw [byteLength_cons]
        omega

theorem settled_of_ofSource (h : ofSource source origin config = .ok p) {part : Part}
    (hpart : part ∈ Part.ofSymbols config.keepLeadingComments (p.symbolsOf m.name)) :
    part.Settled := by
  have hextract := (ofSource_eq_ok h).1
  refine Part.settled_of_mem_ofSymbols (fun s hs => ?_) hpart
  have hmem := (mem_symbolsOf.mp hs).1
  obtain ⟨before, after, -, -, -, -, hstandalone⟩ := liveAt_of_extract hextract hmem
  refine ⟨?_, hstandalone⟩
  have hempty : Filler ("" : String).toList := filler_blanks (by decide)
  cases s with
  | derived a => exact hempty
  | entity e =>
    obtain ⟨boundary, hbanner⟩ := leadingComment_of_extract hextract (entity_mem_symbols.mp hmem)
    unfold Symbol.preamble
    dsimp only
    split
    · rename_i comment _ hcomment
      rw [hcomment] at hbanner
      obtain ⟨banner, hsome, rfl⟩ := Option.map_eq_some_iff.mp hbanner.symm
      rw [String.toList_append, String.toList_ofList]
      exact filler_banner hsome
    · exact hempty

/-- The body of every module is made of declarations that are read as they are in the source, and of
blanks and line comments. -/
theorem bodies_keep_meaning (h : ofSource source origin config = .ok p) (hm : m ∈ p.modules) :
    Transcribed source.toList p m
      (Part.ofSymbols config.keepLeadingComments (p.symbolsOf m.name)) := by
  have hextract := (ofSource_eq_ok h).1
  have htext : (Part.ofSymbols config.keepLeadingComments (p.symbolsOf m.name)).flatMap Part.text =
      m.body.toList := by
    rw [Part.flatMap_text_ofSymbols, body_eq h hm]
  have hsymbols := Part.filterMap_symbol?_ofSymbols config.keepLeadingComments (p.symbolsOf m.name)
  -- the lexer is in code at the start of every part
  have hcode : ∀ front part back,
      Part.ofSymbols config.keepLeadingComments (p.symbolsOf m.name) = front ++ part :: back →
      ∀ next, (Lexer.start.advance (front.flatMap Part.text) next).inCode = true := by
    intro front part back hparts next
    refine Part.inCode_advance_flatMap (fun part' hpart' => ?_) rfl next
    exact settled_of_ofSource h (hparts ▸ List.mem_append_left _ hpart')
  refine ⟨htext, hsymbols, ?_, ?_, ?_⟩
  · intro s hs
    obtain ⟨before, after, hsource, hoff, -⟩ := liveAt_of_extract hextract (mem_symbolsOf.mp hs).1
    rw [hsource]
    exact slice_append hoff (by rw [hoff])
  · intro front s back hparts k hk
    have hs : s ∈ p.symbolsOf m.name := by
      rw [← hsymbols, hparts, List.filterMap_append]
      exact List.mem_append_right _ (List.mem_cons_self ..)
    obtain ⟨before, after, hsource, hoff, -, hcode', hstandalone⟩ :=
      liveAt_of_extract hextract (mem_symbolsOf.mp hs).1
    obtain ⟨xs, c, ys, htext', hle, hlt⟩ := exists_char_of_lt hk
    have hbody : m.body.toList =
        front.flatMap Part.text ++ (s.bodyText.toList ++ back.flatMap Part.text) := by
      rw [← htext, hparts, List.flatMap_append, List.flatMap_cons]
      rfl
    rw [hbody, hsource, hoff,
      within_inertSpans_of_standalone hstandalone (hcode front _ back hparts _) htext' hle hlt,
      within_inertSpans_of_standalone hstandalone hcode' htext' hle hlt]
  · intro front text back hparts before c after htext'
    have hsettled : (Part.filler text).Settled :=
      settled_of_ofSource h (hparts ▸ List.mem_append_right _ (List.mem_cons_self ..))
    have hfiller : Filler (before ++ c :: after) := htext' ▸ hsettled
    rw [Lexer.advance_append, List.head?_append (l := after)]
    exact (hfiller _ (hcode front _ back hparts _) _).blank_or_comment

theorem sample_bodies_keep_meaning :
    ∃ p, ofSource sampleSource "sample" sampleConfig = .ok p ∧ ∃ m ∈ p.modules, m.name = "base" ∧
      Transcribed sampleSource.toList p m
        (Part.ofSymbols sampleConfig.keepLeadingComments (p.symbolsOf m.name)) := by
  obtain ⟨p, base, rest, hp, hmodules, hbase, -⟩ := exists_sample
  have hm : base ∈ p.modules := by simp [hmodules]
  exact ⟨p, hp, base, hm, congrArg Prod.fst hbase, bodies_keep_meaning hp hm⟩

end Partition

end SchemaModules
