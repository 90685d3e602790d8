import SchemaModules.Proofs.Extraction

/-!
# Proofs: how extraction fails

The live headers of a source are gone through from left to right. The first whose declaration does not
end decides the answer, whatever comes after it and whatever else is wrong. If all of them end, it
matters whether there are any, and only then whether a name is declared twice.
-/

namespace SchemaModules.Catalog

open Text Lexical Declaration

/-- The headers of a source, from left to right. -/
def headersOf (source : List Char) : List (Occurrence EntityHeader) :=
  occurrences entityHeader (workingCopy source)

/-- The header is outside comments, strings and the declarations found before it. -/
def IsLive (source : List Char) (found : List (Occurrence EntityHeader × Nat))
    (header : Occurrence EntityHeader) : Prop :=
  within (inertSpans source) header.offset = false ∧
    ∀ f ∈ found, ¬ (f.1.offset < header.offset ∧ header.offset < f.2)

/-- The byte after the declaration that a header starts. -/
def endOf (source : List Char) (header : Occurrence EntityHeader) : Except Fault Nat :=
  declarationEnd (workingCopy source) (header.offset + byteLength header.value.lead)

/-- The live headers among `headers` are those in `found`, each with the byte at which its declaration
ends. -/
structure Accepts (source : List Char) (headers : List (Occurrence EntityHeader))
    (found : List (Occurrence EntityHeader × Nat)) : Prop where
  /-- They stand from left to right. -/
  sorted : found.Pairwise fun f g => f.1.offset < g.1.offset
  /-- They are the live ones. -/
  mem_iff : ∀ header, (∃ stop, (header, stop) ∈ found) ↔ header ∈ headers ∧ IsLive source found header
  /-- Their declarations end. -/
  ends : ∀ f ∈ found, endOf source f.1 = .ok f.2

/-- The names that are declared, those of the entities first. -/
def declaredNames (source : List Char) (found : List (Occurrence EntityHeader × Nat)) : List String :=
  found.map (fun f => String.ofList f.1.value.name) ++
    (liveAliases source (inertSpans source)).map fun o => String.ofList o.value.name

/-- What a source is answered with: an error, or a catalog. -/
inductive Verdict (source : List Char) (origin : String) : Except ExtractError Unit → Prop
  /-- The declarations of all live headers before this one end, and this one's does not. -/
  | unterminated {before after : List (Occurrence EntityHeader)} {header : Occurrence EntityHeader}
      {found : List (Occurrence EntityHeader × Nat)} {fault : Fault}
      (split : headersOf source = before ++ header :: after) (earlier : Accepts source before found)
      (live : IsLive source found header) (fails : endOf source header = .error fault) :
      Verdict source origin (.error (.unterminated (String.ofList header.value.name) fault))
  /-- There is no live header. -/
  | noEntities (all : Accepts source (headersOf source) []) :
      Verdict source origin (.error (.noEntities origin))
  /-- All live headers have declarations that end, and this name is the first to be read again. -/
  | duplicate {found : List (Occurrence EntityHeader × Nat)} {before after : List String} {name : String}
      (all : Accepts source (headersOf source) found) (some_found : found ≠ [])
      (split : declaredNames source found = before ++ name :: after) (again : name ∈ before)
      (fresh : before.Nodup) : Verdict source origin (.error (.duplicateName name))
  /-- All live headers have declarations that end, there is one, and no name is declared twice. -/
  | catalog {found : List (Occurrence EntityHeader × Nat)}
      (all : Accepts source (headersOf source) found) (some_found : found ≠ [])
      (fresh : (declaredNames source found).Nodup) : Verdict source origin (.ok ())

/-! ## The headers that are accepted -/

section

variable {source : List Char} {headers : List (Occurrence EntityHeader)}
  {found : List (Occurrence EntityHeader × Nat)}

theorem pairwise_headersOf (source : List Char) :
    (headersOf source).Pairwise fun a b => a.offset < b.offset :=
  pairwise_offset_occurrences consumes_entityHeader (workingCopy source)

/-- The headers that the search takes are those that are live among themselves. -/
theorem accepts_iff_collects (hsorted : headers.Pairwise fun a b => a.offset < b.offset) :
    Accepts source headers found ↔ Collects (workingCopy source) (inertSpans source) 0 headers found := by
  constructor
  · intro h
    have hlive : ∀ f ∈ found, f.1 ∈ headers ∧ IsLive source found f.1 := by
      intro f hf
      exact (h.mem_iff f.1).mp ⟨f.2, hf⟩
    refine Collects.of_forall hsorted ?_ ?_ ?_
    · intro f hf
      obtain ⟨hmem, hcode, -⟩ := hlive f hf
      exact ⟨hmem, hcode, Nat.zero_le _, h.ends f hf⟩
    · refine h.sorted.imp_of_mem ?_
      intro f g hf hg hlt
      have hout := (hlive g hg).2.2 f hf
      exact ⟨hlt, by omega⟩
    · intro header hheader hcode
      by_cases hinside : ∃ f ∈ found, f.1.offset < header.offset ∧ header.offset < f.2
      · obtain ⟨f, hf, hin⟩ := hinside
        exact Or.inr ⟨f, hf, Or.inr hin⟩
      · have hout : IsLive source found header := by
          refine ⟨hcode, ?_⟩
          intro f hf hin
          exact hinside ⟨f, hf, hin⟩
        obtain ⟨stop, hstop⟩ := (h.mem_iff header).mpr ⟨hheader, hout⟩
        exact Or.inr ⟨_, hstop, Or.inl rfl⟩
  · intro h
    refine ⟨?_, ?_, ?_⟩
    · have hfirsts := hsorted.sublist h.map_fst_sublist
      rwa [List.pairwise_map] at hfirsts
    · intro header
      constructor
      · rintro ⟨stop, hstop⟩
        have hmem : header ∈ headers := (h.of_mem hstop).1
        obtain ⟨-, hcode, hout⟩ := (h.exists_mem_iff hsorted hmem).mp ⟨stop, hstop⟩
        refine ⟨hmem, hcode, ?_⟩
        intro f hf hin
        have := hout f hf hin.1
        omega
      · rintro ⟨hmem, hcode, hout⟩
        refine (h.exists_mem_iff hsorted hmem).mpr ⟨Nat.zero_le _, hcode, ?_⟩
        intro f hf hlt
        have := hout f hf
        omega
    · intro f hf
      exact (h.of_mem hf).2.2

end

/-! ## The search for entities -/

section

variable {source working : List Char} {inert aliasSpans : List Span} {consumed : Nat}
  {headers before after : List (Occurrence EntityHeader)} {header : Occurrence EntityHeader}
  {found : List (Occurrence EntityHeader × Nat)} {entities : List Entity} {fault : Fault}

/-- The search fails at a live header that it comes to and that has no end. -/
theorem Collects.collectEntities_eq_error (h : Collects working inert consumed before found)
    (hconsumed : consumed ≤ header.offset) (hfound : ∀ f ∈ found, f.2 ≤ header.offset)
    (hcode : within inert header.offset = false)
    (hfails : declarationEnd working (header.offset + byteLength header.value.lead) = .error fault) :
    collectEntities source working inert aliasSpans consumed (before ++ header :: after) =
      .error (.unterminated (String.ofList header.value.name) fault) := by
  induction h with
  | nil =>
    rw [List.nil_append, collectEntities, if_neg (by simp [hcode, hconsumed]), hfails]
  | skip dead _ ih =>
    rw [List.cons_append, collectEntities, if_pos (by simpa using dead)]
    exact ih hconsumed hfound
  | take after live ends _ ih =>
    have hstop := hfound _ (List.mem_cons_self ..)
    rw [List.cons_append, collectEntities, if_neg (by simp [live, after]), ends]
    dsimp only
    rw [ih hstop fun f hf => hfound f (List.mem_cons_of_mem _ hf)]

/-- Where the search fails, it has come to a live header that has no end. -/
theorem exists_of_collectEntities_eq_error {e : ExtractError}
    (hsorted : headers.Pairwise fun a b => a.offset < b.offset)
    (h : collectEntities source working inert aliasSpans consumed headers = .error e) :
    ∃ before header after found fault, headers = before ++ header :: after ∧
      Collects working inert consumed before found ∧ consumed ≤ header.offset ∧
      (∀ f ∈ found, f.2 ≤ header.offset) ∧ within inert header.offset = false ∧
      declarationEnd working (header.offset + byteLength header.value.lead) = .error fault ∧
      e = .unterminated (String.ofList header.value.name) fault := by
  induction headers generalizing consumed with
  | nil => simp [collectEntities] at h
  | cons first headers ih =>
    obtain ⟨hfirst, hsorted⟩ := List.pairwise_cons.mp hsorted
    rw [collectEntities] at h
    split at h
    · rename_i hdead
      obtain ⟨before, header, after, found, fault, rfl, hfound, hrest⟩ := ih hsorted h
      exact ⟨first :: before, header, after, found, fault, rfl, .skip (by simpa using hdead) hfound, hrest⟩
    · rename_i hlive
      simp only [Bool.or_eq_true, decide_eq_true_eq, not_or, Nat.not_lt, Bool.not_eq_true] at hlive
      split at h
      · rename_i fault hfails
        exact ⟨[], first, headers, [], fault, rfl, .nil, hlive.1, by simp, hlive.2, hfails,
          (Except.error.inj h).symm⟩
      · rename_i stop hstop
        dsimp only at h
        split at h
        · rename_i e' he'
          obtain rfl := Except.error.inj h
          obtain ⟨before, header, after, found, fault, rfl, hfound, hle, hall, hrest⟩ := ih hsorted he'
          have hlt := hfirst header (by simp)
          refine ⟨first :: before, header, after, (first, stop) :: found, fault, rfl,
            .take hlive.1 hlive.2 hstop hfound, by omega, ?_, hrest⟩
          exact List.forall_mem_cons.mpr ⟨hle, hall⟩
        · simp at h

theorem map_name_of_declaredBy (h : List.Forall₂ (DeclaredBy source) found entities) :
    entities.map Entity.name = found.map fun f => String.ofList f.1.value.name := by
  induction h with
  | nil => rfl
  | cons hdeclared _ ih =>
    obtain ⟨boundary, rfl⟩ := hdeclared
    rw [List.map_cons, List.map_cons, ih]
    rfl

end

/-! ## Names that are read again -/

theorem firstRepeated?_eq_some_iff {seen names : List String} {name : String} :
    firstRepeated? seen names = some name ↔ ∃ before after, names = before ++ name :: after ∧
      name ∈ seen ++ before ∧ before.Nodup ∧ ∀ n ∈ before, n ∉ seen := by
  induction names generalizing seen with
  | nil => simp [firstRepeated?]
  | cons first names ih =>
    rw [firstRepeated?]
    split
    · rename_i hmem
      rw [List.contains_iff_mem] at hmem
      constructor
      · intro h
        obtain rfl := Option.some.inj h
        exact ⟨[], names, rfl, by simpa using hmem, List.nodup_nil, by simp⟩
      · rintro ⟨before, after, hsplit, -, -, hfresh⟩
        cases before with
        | nil => rw [(List.cons.inj hsplit).1]
        | cons n before =>
          obtain rfl := (List.cons.inj hsplit).1
          exact absurd hmem (hfresh first (List.mem_cons_self ..))
    · rename_i hmem
      have hnew : first ∉ seen := by simpa using hmem
      rw [ih]
      constructor
      · rintro ⟨before, after, rfl, hagain, hnodup, hfresh⟩
        refine ⟨first :: before, after, rfl, ?_, ?_, ?_⟩
        · simpa [or_left_comm] using hagain
        · refine List.nodup_cons.mpr ⟨?_, hnodup⟩
          intro hfirst
          exact hfresh first hfirst (List.mem_cons_self ..)
        · refine List.forall_mem_cons.mpr ⟨hnew, ?_⟩
          intro n hn hseen
          exact hfresh n hn (List.mem_cons_of_mem _ hseen)
      · rintro ⟨before, after, hsplit, hagain, hnodup, hfresh⟩
        cases before with
        | nil =>
          obtain rfl := (List.cons.inj hsplit).1
          exact absurd (by simpa using hagain) hnew
        | cons n before =>
          obtain ⟨rfl, rfl⟩ := List.cons.inj hsplit
          obtain ⟨hfirst, hnodup⟩ := List.nodup_cons.mp hnodup
          refine ⟨before, after, rfl, by simpa [or_left_comm] using hagain, hnodup, ?_⟩
          intro m hm hseen
          rcases List.mem_cons.mp hseen with rfl | hseen
          · exact hfirst hm
          · exact hfresh m (List.mem_cons_of_mem _ hm) hseen

/-! ## The answer -/

section

variable {source origin : String} {found : List (Occurrence EntityHeader × Nat)}

/-- Where all live headers have declarations that end, the answer depends on their number and on the
names. -/
theorem map_extract_of_collects (h : Collects (workingCopy source.toList) (inertSpans source.toList) 0
    (headersOf source.toList) found) (origin : String) :
    (extract source origin).map (fun _ => ()) =
      if found.isEmpty then .error (.noEntities origin)
      else match firstRepeated? [] (declaredNames source.toList found) with
        | some name => .error (.duplicateName name)
        | none => .ok () := by
  obtain ⟨entities, hcollect, hentities⟩ :=
    h.exists_collectEntities source.toList (aliasSpans source.toList)
  have hempty : entities.isEmpty = found.isEmpty := by
    cases hentities <;> rfl
  have hnames : entities.map Entity.name ++
      ((liveAliases source.toList (inertSpans source.toList)).map aliasOf).map Alias.name =
        declaredNames source.toList found := by
    rw [map_name_of_declaredBy hentities, List.map_map]
    rfl
  unfold headersOf workingCopy aliasSpans at hcollect
  unfold extract
  dsimp only
  rw [hcollect]
  dsimp only
  rw [hempty, hnames]
  cases found.isEmpty with
  | true => rfl
  | false =>
    cases firstRepeated? [] (declaredNames source.toList found) <;> rfl

/-- A live header without an end decides the answer. -/
theorem extract_of_fails {before after : List (Occurrence EntityHeader)}
    {header : Occurrence EntityHeader} {fault : Fault}
    (hsplit : headersOf source.toList = before ++ header :: after)
    (h : Collects (workingCopy source.toList) (inertSpans source.toList) 0 before found)
    (hfound : ∀ f ∈ found, f.2 ≤ header.offset)
    (hcode : within (inertSpans source.toList) header.offset = false)
    (hfails : endOf source.toList header = .error fault) (origin : String) :
    extract source origin = .error (.unterminated (String.ofList header.value.name) fault) := by
  have hcollect : collectEntities source.toList (workingCopy source.toList) (inertSpans source.toList)
      (aliasSpans source.toList) 0 (before ++ header :: after) =
        .error (.unterminated (String.ofList header.value.name) fault) :=
    h.collectEntities_eq_error (Nat.zero_le _) hfound hcode hfails
  rw [← hsplit] at hcollect
  unfold headersOf workingCopy aliasSpans at hcollect
  unfold extract
  dsimp only
  rw [hcollect]

theorem verdict_of_extract (source origin : String) :
    Verdict source.toList origin ((extract source origin).map fun _ => ()) := by
  have hsorted := pairwise_headersOf source.toList
  cases hcollect : collectEntities source.toList (workingCopy source.toList) (inertSpans source.toList)
      (aliasSpans source.toList) 0 (headersOf source.toList) with
  | error e =>
    obtain ⟨before, header, after, found, fault, hsplit, hfound, -, hout, hcode, hfails, -⟩ :=
      exists_of_collectEntities_eq_error hsorted hcollect
    rw [extract_of_fails hsplit hfound hout hcode hfails]
    have hbefore : before.Pairwise fun a b => a.offset < b.offset := by
      rw [hsplit] at hsorted
      exact (List.pairwise_append.mp hsorted).1
    refine .unterminated hsplit ((accepts_iff_collects hbefore).mpr hfound) ⟨hcode, ?_⟩ hfails
    intro f hf hin
    have := hout f hf
    omega
  | ok entities =>
    obtain ⟨found, hfound, -⟩ := collects_of_collectEntities hcollect
    have hall := (accepts_iff_collects hsorted).mpr hfound
    rw [map_extract_of_collects hfound]
    cases found with
    | nil => exact .noEntities hall
    | cons f found =>
      have hne : f :: found ≠ [] := List.cons_ne_nil _ _
      rw [if_neg (by simp)]
      cases hrepeated : firstRepeated? [] (declaredNames source.toList (f :: found)) with
      | some name =>
        obtain ⟨before, after, hsplit, hagain, hfresh, -⟩ := firstRepeated?_eq_some_iff.mp hrepeated
        exact .duplicate hall hne hsplit hagain hfresh
      | none => exact .catalog hall hne (firstRepeated?_eq_none_iff.mp hrepeated).1

theorem extract_of_verdict {verdict : Except ExtractError Unit}
    (h : Verdict source.toList origin verdict) :
    (extract source origin).map (fun _ => ()) = verdict := by
  have hsorted := pairwise_headersOf source.toList
  cases h with
  | @unterminated before after header found fault split earlier live fails =>
    rw [split] at hsorted
    obtain ⟨hbefore, -, hlater⟩ := List.pairwise_append.mp hsorted
    have hfound : ∀ f ∈ found, f.2 ≤ header.offset := by
      intro f hf
      have hlt := hlater f.1 ((earlier.mem_iff f.1).mp ⟨f.2, hf⟩).1 header (List.mem_cons_self ..)
      have hout := live.2 f hf
      omega
    rw [extract_of_fails split ((accepts_iff_collects hbefore).mp earlier) hfound live.1 fails]
    rfl
  | noEntities all =>
    rw [map_extract_of_collects ((accepts_iff_collects hsorted).mp all)]
    rfl
  | @duplicate found before after name all some_found split again fresh =>
    have hrepeated : firstRepeated? [] (declaredNames source.toList found) = some name :=
      firstRepeated?_eq_some_iff.mpr ⟨before, after, split, again, fresh, by simp⟩
    rw [map_extract_of_collects ((accepts_iff_collects hsorted).mp all), hrepeated,
      if_neg (by simpa using some_found)]
  | @catalog found all some_found fresh =>
    have hrepeated : firstRepeated? [] (declaredNames source.toList found) = none :=
      firstRepeated?_eq_none_iff.mpr ⟨fresh, by simp⟩
    rw [map_extract_of_collects ((accepts_iff_collects hsorted).mp all), hrepeated,
      if_neg (by simpa using some_found)]

end

/-- Extraction answers as the source is read, and a catalog has an entity and names of its own. -/
theorem extract_iff_verdict (source origin : String) (verdict : Except ExtractError Unit) :
    ((extract source origin).map (fun _ => ()) = verdict ↔ Verdict source.toList origin verdict) ∧
      ∀ c, extract source origin = .ok c → (c.symbols.map Symbol.name).Nodup ∧ c.entities ≠ [] := by
  refine ⟨⟨?_, extract_of_verdict⟩, ?_⟩
  · rintro rfl
    exact verdict_of_extract source origin
  · intro c hc
    obtain ⟨entities, -, hne, -, rfl⟩ := extract_eq_ok hc
    exact ⟨(wellFormed_of_extract hc).names, hne⟩

/-- Two tables of one name, and a third whose call is never closed. -/
def danglingSource : String :=
  "export const a = pgTable(\"a\", \x7b\x7d);\nexport const a = pgTable(\"b\", \x7b\x7d);\n" ++
    "export const b = pgTable(\"c\", \x7b [\n"

/-- Its first table alone. -/
def flatSource : String := "export const a = pgTable(\"a\", \x7b\x7d);\n"

theorem danglingSource_iff_verdict :
    Verdict danglingSource.toList "sample" (.error (.unterminated "b" (.openBrackets 3))) ∧
      ∃ c, extract flatSource "sample" = .ok c ∧ Verdict flatSource.toList "sample" (.ok ()) ∧
        (c.symbols.map Symbol.name).Nodup ∧ c.entities ≠ [] := by
  have hfails : (extract danglingSource "sample").map (fun _ => ()) =
      .error (.unterminated "b" (.openBrackets 3)) := by
    decide +kernel
  refine ⟨(extract_iff_verdict danglingSource "sample" _).1.mp hfails, ?_⟩
  have hsome : ((extract flatSource "sample").toOption.map fun c => c.entities.length) = some 1 := by
    decide +kernel
  obtain ⟨c, hc, -⟩ := exists_eq_ok_of_map_toOption hsome
  obtain ⟨hverdict, hok⟩ := extract_iff_verdict flatSource "sample" (.ok ())
  refine ⟨c, hc, hverdict.mp ?_, hok c hc⟩
  rw [hc]
  rfl

end SchemaModules.Catalog
