import Mathlib.Data.List.Forall2
import SchemaModules.Catalog.Extract

/-!
# Proofs: which headers become entities

The headers are gone through in order. A header is skipped when it is inert or stands before the end of
the last declaration, and else it starts a declaration. So a live header is skipped only if it lies
inside a declaration that was found.
-/

namespace SchemaModules.Catalog

open Text Lexical Declaration

theorem exists_left_of_forall₂ {α β : Type} {r : α → β → Prop} {xs : List α} {ys : List β}
    (h : List.Forall₂ r xs ys) {y : β} (hy : y ∈ ys) : ∃ x ∈ xs, r x y := by
  induction h with
  | nil => simp at hy
  | @cons a b xs ys hab _ ih =>
    rcases List.mem_cons.mp hy with rfl | hy
    · exact ⟨a, List.mem_cons_self .., hab⟩
    · obtain ⟨x, hx, hxy⟩ := ih hy
      exact ⟨x, List.mem_cons_of_mem _ hx, hxy⟩

theorem exists_right_of_forall₂ {α β : Type} {r : α → β → Prop} {xs : List α} {ys : List β}
    (h : List.Forall₂ r xs ys) {x : α} (hx : x ∈ xs) : ∃ y ∈ ys, r x y :=
  exists_left_of_forall₂ (h.flip : List.Forall₂ (fun y x => r x y) ys xs) hx

/-- Where the declaration before them ends at byte `consumed`, the headers start the declarations
`found`, each of which is a header with the byte at which its declaration ends. -/
inductive Collects (working : List Char) (inert : List Span) :
    Nat → List (Occurrence EntityHeader) → List (Occurrence EntityHeader × Nat) → Prop
  | nil {consumed : Nat} : Collects working inert consumed [] []
  | skip {consumed : Nat} {header : Occurrence EntityHeader} {headers : List (Occurrence EntityHeader)}
      {found : List (Occurrence EntityHeader × Nat)}
      (dead : header.offset < consumed ∨ within inert header.offset = true)
      (tail : Collects working inert consumed headers found) :
      Collects working inert consumed (header :: headers) found
  | take {consumed stop : Nat} {header : Occurrence EntityHeader}
      {headers : List (Occurrence EntityHeader)} {found : List (Occurrence EntityHeader × Nat)}
      (after : consumed ≤ header.offset) (live : within inert header.offset = false)
      (ends : declarationEnd working (header.offset + byteLength header.value.lead) = .ok stop)
      (tail : Collects working inert stop headers found) :
      Collects working inert consumed (header :: headers) ((header, stop) :: found)

/-- Where the last of the declarations ends, or byte `consumed` where there is none. -/
def lastStop (consumed : Nat) (found : List (Occurrence EntityHeader × Nat)) : Nat :=
  found.foldl (fun _ f => f.2) consumed

/-- The entity is what the declaration says, with some banner. -/
def DeclaredBy (source : List Char) (found : Occurrence EntityHeader × Nat) (e : Entity) : Prop :=
  ∃ boundary, e = entityOf source found.1 boundary found.2

section

variable {source working : List Char} {inert aliasSpans : List Span} {consumed : Nat}
  {headers : List (Occurrence EntityHeader)} {found : List (Occurrence EntityHeader × Nat)}
  {entities : List Entity}

/-- The comment of an entity is looked for behind the declaration that was found before it. -/
theorem exists_found_of_collectEntities
    (h : collectEntities source working inert aliasSpans consumed headers = .ok entities) :
    ∃ found, Collects working inert consumed headers found ∧
      List.Forall₂ (DeclaredBy source) found entities ∧
      ∀ e ∈ entities, ∃ before f after, found = before ++ f :: after ∧ e = entityOf source f.1
        (bannerBoundary aliasSpans (lastStop consumed before) f.1.offset) f.2 := by
  induction headers generalizing consumed entities with
  | nil =>
    obtain rfl : [] = entities := by simpa [collectEntities] using h
    exact ⟨[], .nil, .nil, by simp⟩
  | cons header headers ih =>
    rw [collectEntities] at h
    split at h
    · rename_i hdead
      obtain ⟨found, hfound, hentities⟩ := ih h
      exact ⟨found, .skip (by simpa using hdead) hfound, hentities⟩
    · rename_i hlive
      simp only [Bool.or_eq_true, decide_eq_true_eq, not_or, Nat.not_lt, Bool.not_eq_true] at hlive
      split at h
      · simp at h
      · rename_i stop hstop
        dsimp only at h
        split at h
        · simp at h
        · rename_i rest hcollect
          obtain rfl := Except.ok.inj h
          obtain ⟨found, hfound, hdeclared, hsplit⟩ := ih hcollect
          refine ⟨(header, stop) :: found, .take hlive.1 hlive.2 hstop hfound,
            .cons ⟨_, rfl⟩ hdeclared, List.forall_mem_cons.mpr ⟨?_, ?_⟩⟩
          · exact ⟨[], (header, stop), found, rfl, rfl⟩
          · intro e he
            obtain ⟨before, f, after, rfl, hentity⟩ := hsplit e he
            exact ⟨(header, stop) :: before, f, after, rfl, hentity⟩

theorem collects_of_collectEntities
    (h : collectEntities source working inert aliasSpans consumed headers = .ok entities) :
    ∃ found, Collects working inert consumed headers found ∧
      List.Forall₂ (DeclaredBy source) found entities := by
  obtain ⟨found, hfound, hentities, -⟩ := exists_found_of_collectEntities h
  exact ⟨found, hfound, hentities⟩

namespace Collects

theorem exists_collectEntities (source : List Char) (aliasSpans : List Span)
    (h : Collects working inert consumed headers found) : ∃ entities,
      collectEntities source working inert aliasSpans consumed headers = .ok entities ∧
      List.Forall₂ (DeclaredBy source) found entities := by
  induction h with
  | nil => exact ⟨[], rfl, .nil⟩
  | skip dead _ ih =>
    obtain ⟨entities, hcollect, hentities⟩ := ih
    exact ⟨entities, by rw [collectEntities, if_pos (by simpa using dead), hcollect], hentities⟩
  | @take consumed stop header headers found after live ends _ ih =>
    obtain ⟨entities, hcollect, hentities⟩ := ih
    refine ⟨entityOf source header (bannerBoundary aliasSpans consumed header.offset) stop :: entities,
      ?_, .cons ⟨_, rfl⟩ hentities⟩
    rw [collectEntities, if_neg (by simp [live, after]), ends]
    dsimp only
    rw [hcollect]

/-- What is found is a live header with the end of its declaration. -/
theorem of_mem (h : Collects working inert consumed headers found) {f : Occurrence EntityHeader × Nat}
    (hf : f ∈ found) : f.1 ∈ headers ∧ within inert f.1.offset = false ∧
      declarationEnd working (f.1.offset + byteLength f.1.value.lead) = .ok f.2 := by
  induction h with
  | nil => simp at hf
  | skip _ _ ih =>
    obtain ⟨hmem, hrest⟩ := ih hf
    exact ⟨List.mem_cons_of_mem _ hmem, hrest⟩
  | take _ live ends _ ih =>
    rcases List.mem_cons.mp hf with rfl | hf
    · exact ⟨List.mem_cons_self .., live, ends⟩
    · obtain ⟨hmem, hrest⟩ := ih hf
      exact ⟨List.mem_cons_of_mem _ hmem, hrest⟩

theorem map_fst_sublist (h : Collects working inert consumed headers found) :
    (found.map Prod.fst).Sublist headers := by
  induction h with
  | nil => exact List.Sublist.refl _
  | skip _ _ ih => exact ih.cons _
  | take _ _ _ _ ih => exact ih.cons_cons _

/-- A live header is found unless it lies inside a declaration that was found. -/
theorem exists_mem_iff (h : Collects working inert consumed headers found)
    (hsorted : headers.Pairwise fun a b => a.offset < b.offset) {header : Occurrence EntityHeader}
    (hheader : header ∈ headers) : (∃ stop, (header, stop) ∈ found) ↔
      consumed ≤ header.offset ∧ within inert header.offset = false ∧
        ∀ f ∈ found, f.1.offset < header.offset → f.2 ≤ header.offset := by
  induction h with
  | nil => simp at hheader
  | @skip consumed first headers found dead tail ih =>
    obtain ⟨hfirst, hsorted⟩ := List.pairwise_cons.mp hsorted
    rcases List.mem_cons.mp hheader with rfl | hheader
    · constructor
      · rintro ⟨stop, hstop⟩
        exact absurd (hfirst _ (tail.of_mem hstop).1) (Nat.lt_irrefl _)
      · rintro ⟨hle, hlive, -⟩
        rcases dead with hlt | hdead
        · omega
        · rw [hlive] at hdead
          exact Bool.noConfusion hdead
    · exact ih hsorted hheader
  | @take consumed stop first headers found after live ends tail ih =>
    obtain ⟨hfirst, hsorted⟩ := List.pairwise_cons.mp hsorted
    rcases List.mem_cons.mp hheader with rfl | hheader
    · refine ⟨fun _ => ⟨after, live, fun f hf hlt => ?_⟩, fun _ => ⟨stop, List.mem_cons_self ..⟩⟩
      rcases List.mem_cons.mp hf with rfl | hf
      · exact absurd hlt (Nat.lt_irrefl _)
      · have := hfirst _ (tail.of_mem hf).1
        omega
    · have hlt := hfirst header hheader
      have hne : ∀ stop', (header, stop') ≠ (first, stop) := by
        intro stop' heq
        rw [(Prod.mk.inj heq).1] at hlt
        exact Nat.lt_irrefl _ hlt
      constructor
      · rintro ⟨stop', hstop'⟩
        have hmem := (List.mem_cons.mp hstop').resolve_left (hne stop')
        obtain ⟨hle, hlive, hout⟩ := (ih hsorted hheader).mp ⟨stop', hmem⟩
        refine ⟨by omega, hlive, fun f hf hbefore => ?_⟩
        rcases List.mem_cons.mp hf with rfl | hf
        · exact hle
        · exact hout f hf hbefore
      · rintro ⟨-, hlive, hout⟩
        have hle := hout _ (List.mem_cons_self ..) hlt
        obtain ⟨stop', hstop'⟩ := (ih hsorted hheader).mpr
          ⟨hle, hlive, fun f hf => hout f (List.mem_cons_of_mem _ hf)⟩
        exact ⟨stop', List.mem_cons_of_mem _ hstop'⟩

/-- Declarations that start at live headers, and around every other live header, are what is found. -/
theorem of_forall (hsorted : headers.Pairwise fun a b => a.offset < b.offset)
    (hmem : ∀ f ∈ found, f.1 ∈ headers ∧ within inert f.1.offset = false ∧ consumed ≤ f.1.offset ∧
      declarationEnd working (f.1.offset + byteLength f.1.value.lead) = .ok f.2)
    (hfound : found.Pairwise fun f g => f.1.offset < g.1.offset ∧ f.2 ≤ g.1.offset)
    (hall : ∀ header ∈ headers, within inert header.offset = false → header.offset < consumed ∨
      ∃ f ∈ found, f.1 = header ∨ f.1.offset < header.offset ∧ header.offset < f.2) :
    Collects working inert consumed headers found := by
  induction headers generalizing consumed found with
  | nil =>
    cases found with
    | nil => exact .nil
    | cons f found => exact absurd (hmem f (List.mem_cons_self ..)).1 (by simp)
  | cons first headers ih =>
    obtain ⟨hfirst, hsorted'⟩ := List.pairwise_cons.mp hsorted
    have hle : ∀ f ∈ found, first.offset ≤ f.1.offset := by
      intro f hf
      rcases List.mem_cons.mp (hmem f hf).1 with heq | hlater
      · exact Nat.le_of_eq (congrArg _ heq.symm)
      · exact Nat.le_of_lt (hfirst _ hlater)
    by_cases htaken : ∃ f ∈ found, f.1 = first
    · -- what starts at the first header comes first
      obtain ⟨f, hf, heq⟩ := htaken
      obtain ⟨g, found, rfl⟩ := List.exists_cons_of_ne_nil (List.ne_nil_of_mem hf)
      obtain ⟨hg, hfound⟩ := List.pairwise_cons.mp hfound
      have hgf : g = f := by
        rcases List.mem_cons.mp hf with hfg | hf
        · exact hfg.symm
        · have hlt := (hg f hf).1
          have hle' := hle g (List.mem_cons_self ..)
          rw [heq] at hlt
          omega
      subst hgf heq
      obtain ⟨-, hlive, hconsumed, hends⟩ := hmem g (List.mem_cons_self ..)
      refine .take hconsumed hlive hends (ih hsorted' (fun f hf => ?_) hfound fun header hheader hlive => ?_)
      · obtain ⟨hin, hlive, -, hends⟩ := hmem f (List.mem_cons_of_mem _ hf)
        have hlt := (hg f hf).1
        refine ⟨(List.mem_cons.mp hin).resolve_left fun heq => ?_, hlive, (hg f hf).2, hends⟩
        rw [heq] at hlt
        exact Nat.lt_irrefl _ hlt
      · have hlt := hfirst header hheader
        rcases hall header (List.mem_cons_of_mem _ hheader) hlive with hbefore | ⟨f, hf, hcase⟩
        · omega
        · rcases List.mem_cons.mp hf with rfl | hf
          · rcases hcase with heq | ⟨-, hinside⟩
            · rw [heq] at hlt
              exact absurd hlt (Nat.lt_irrefl _)
            · exact Or.inl hinside
          · exact Or.inr ⟨f, hf, hcase⟩
    · refine .skip ?_ (ih hsorted' (fun f hf => ?_) hfound fun header hheader hlive =>
        hall header (List.mem_cons_of_mem _ hheader) hlive)
      · cases hlive : within inert first.offset with
        | true => exact Or.inr rfl
        | false =>
          rcases hall first (List.mem_cons_self ..) hlive with hbefore | ⟨f, hf, heq | ⟨hlt, -⟩⟩
          · exact Or.inl hbefore
          · exact absurd ⟨f, hf, heq⟩ htaken
          · have := hle f hf
            omega
      · obtain ⟨hin, hrest⟩ := hmem f hf
        exact ⟨(List.mem_cons.mp hin).resolve_left fun heq => htaken ⟨f, hf, heq⟩, hrest⟩

end Collects

/-- Every collected entity has a live header whose builder call is closed. -/
theorem exists_of_mem_collectEntities
    (h : collectEntities source working inert aliasSpans consumed headers = .ok entities)
    {e : Entity} (he : e ∈ entities) :
    ∃ header ∈ headers, ∃ boundary stop, within inert header.offset = false ∧
      declarationEnd working (header.offset + byteLength header.value.lead) = .ok stop ∧
      e = entityOf source header boundary stop := by
  obtain ⟨found, hfound, hentities⟩ := collects_of_collectEntities h
  obtain ⟨f, hf, boundary, rfl⟩ := exists_left_of_forall₂ hentities he
  obtain ⟨hmem, hlive, hends⟩ := hfound.of_mem hf
  exact ⟨f.1, hmem, boundary, f.2, hlive, hends, rfl⟩

/-- The entities stand where their headers stand, in the same order. -/
theorem map_offset_collectEntities_sublist
    (h : collectEntities source working inert aliasSpans consumed headers = .ok entities) :
    (entities.map Entity.offset).Sublist (headers.map Occurrence.offset) := by
  obtain ⟨found, hfound, hentities⟩ := collects_of_collectEntities h
  have hsame : (found.map Prod.fst).map Occurrence.offset = entities.map Entity.offset := by
    rw [← List.forall₂_eq_eq_eq, List.map_map, List.forall₂_map_left_iff, List.forall₂_map_right_iff]
    refine hentities.imp fun f e hdeclared => ?_
    obtain ⟨boundary, rfl⟩ := hdeclared
    rfl
  rw [← hsame]
  exact hfound.map_fst_sublist.map _

end

end SchemaModules.Catalog
