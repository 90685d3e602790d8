import Mathlib.Data.List.Pairwise
import Mathlib.Data.List.Sort
import SchemaModules.Proofs.Relocation

/-!
# Proofs: module bodies are schemas again

The body of a module that owns an entity is itself a source, and its catalog has the symbols that the
module owns, in the same order. Nothing about them changes, except that the statement of an alias may
take other blanks at its end.
-/

namespace SchemaModules

open Text Lexical Declaration Catalog

/-- The entity `e'` says what `e` says, in the same words. -/
structure Entity.Restates (e e' : Entity) : Prop where
  name_eq : e.name = e'.name
  physicalName_eq : e.physicalName = e'.physicalName
  bodyText_eq : e.bodyText = e'.bodyText

/-- The alias `a'` says what `a` says, in the same words. -/
structure Alias.Restates (a a' : Alias) : Prop where
  name_eq : a.name = a'.name
  referencedEntity_eq : a.referencedEntity = a'.referencedEntity
  shape_eq : a.shape = a'.shape
  /-- The declarations are the same, up to the blanks at the end. -/
  bodyText_eq : trimEnd a.bodyText.toList = trimEnd a'.bodyText.toList

/-- The symbol `t` is of the same kind as `s`, says the same, and is resolved if `s` is. -/
inductive Symbol.Restates : Symbol → Symbol → Prop
  | entity {e e' : Entity} (restates : e.Restates e') : Restates (.entity e) (.entity e')
  | derived {a a' : Alias} (restates : a.Restates a') (resolved : a.resolved = a'.resolved) :
      Restates (.derived a) (.derived a')

namespace Text

/-- Blanks at the end make no difference to a text that is trimmed there. -/
theorem trimEnd_append_blank (cs : List Char) {room : List Char} (h : allBlank room = true) :
    trimEnd (cs ++ room) = trimEnd cs := by
  unfold trimEnd
  rw [List.reverse_append, List.dropWhile_append_of_pos]
  exact fun c hc => allBlank_iff.mp h c (List.mem_reverse.mp hc)

end Text

theorem forall₂_imp_of_mem {α β : Type} {r r' : α → β → Prop} {xs : List α} {ys : List β}
    (h : List.Forall₂ r xs ys) (himp : ∀ x ∈ xs, ∀ y ∈ ys, r x y → r' x y) :
    List.Forall₂ r' xs ys := by
  refine List.forall₂_iff_zip.mpr ⟨h.length_eq, fun {x y} hzip => ?_⟩
  obtain ⟨hx, hy⟩ := List.of_mem_zip hzip
  exact himp x hx y hy (List.forall₂_zip h hzip)

/-- Two lists in the order of their keys correspond to each other when each element has one of the same
key that corresponds to it. -/
theorem forall₂_of_keys {α β : Type} {r : α → β → Prop} {f : α → Nat} {g : β → Nat}
    (hkey : ∀ x y, r x y → f x = g y) {xs : List α} {ys : List β}
    (hxs : xs.Pairwise fun a b => f a < f b) (hys : ys.Pairwise fun a b => g a < g b)
    (hright : ∀ x ∈ xs, ∃ y ∈ ys, r x y) (hleft : ∀ y ∈ ys, ∃ x ∈ xs, r x y) :
    List.Forall₂ r xs ys := by
  have hys' : (ys.map g).Pairwise (· < ·) := List.pairwise_map.mpr hys
  have hkeys : xs.map f = ys.map g := by
    refine (List.pairwise_map.mpr hxs : (xs.map f).Pairwise (· < ·)).eq_of_mem_iff hys' fun k => ?_
    rw [List.mem_map, List.mem_map]
    constructor
    · rintro ⟨x, hx, rfl⟩
      obtain ⟨y, hy, hr⟩ := hright x hx
      exact ⟨y, hy, (hkey x y hr).symm⟩
    · rintro ⟨y, hy, rfl⟩
      obtain ⟨x, hx, hr⟩ := hleft y hy
      exact ⟨x, hx, hkey x y hr⟩
  have hpairs : List.Forall₂ (fun x y => f x = g y) xs ys := by
    rwa [← List.forall₂_eq_eq_eq, List.forall₂_map_left_iff, List.forall₂_map_right_iff] at hkeys
  -- elements of one key are the same
  refine forall₂_imp_of_mem hpairs fun x hx y hy heq => ?_
  obtain ⟨y', hy', hr⟩ := hright x hx
  have hsame : y' = y := List.inj_on_of_nodup_map (hys'.imp Nat.ne_of_lt) hy' hy
    ((hkey x y' hr).symm.trans heq)
  exact hsame ▸ hr

namespace Part

/-- The symbol `t` is the one that was put at a place. -/
inductive FoundAt : Nat × Symbol → Symbol → Prop
  | entity {n : Nat} {e e' : Entity} (offset : e'.offset = n) (restates : e.Restates e') :
      FoundAt (n, .entity e) (.entity e')
  | derived {n : Nat} {a a' : Alias} (offset : a'.offset = n) (restates : a.Restates a') :
      FoundAt (n, .derived a) (.derived a')

theorem FoundAt.offset_eq {place : Nat × Symbol} {t : Symbol} (h : FoundAt place t) :
    place.1 = t.offset := by
  cases h with
  | entity offset _ => exact offset.symm
  | derived offset _ => exact offset.symm

theorem FoundAt.name_eq {place : Nat × Symbol} {t : Symbol} (h : FoundAt place t) :
    place.2.name = t.name := by
  cases h with
  | entity _ restates => exact restates.name_eq
  | derived _ restates => exact restates.name_eq

/-- What is found at the places has the names of what was put there. -/
theorem map_name_eq_of_foundAt {places : List (Nat × Symbol)} {symbols : List Symbol}
    (h : List.Forall₂ FoundAt places symbols) :
    (places.map Prod.snd).map Symbol.name = symbols.map Symbol.name := by
  rw [List.map_map, ← List.forall₂_eq_eq_eq, List.forall₂_map_left_iff, List.forall₂_map_right_iff]
  exact h.imp fun _ _ => FoundAt.name_eq

variable {parts front back : List Part}

theorem Redeclares.foundAt {e e' : Entity} {f : Occurrence EntityHeader × Nat}
    (h : Redeclares front e f) (hparts : parts = front ++ declared (.entity e) :: back)
    (he' : DeclaredBy (parts.flatMap text) f e') :
    FoundAt (byteLength (front.flatMap text), .entity e) (.entity e') := by
  obtain ⟨boundary, rfl⟩ := he'
  have hslice : slice (parts.flatMap text) f.1.offset f.2 = e.bodyText.toList := by
    rw [flatMap_text_eq hparts]
    exact slice_append h.offset_eq h.stop_eq
  refine .entity h.offset_eq ⟨?_, ?_, ?_⟩
  · rw [entityOf, ← h.name_eq, String.ofList_toList]
  · rw [entityOf, ← h.physicalName_eq, String.ofList_toList]
  · rw [entityOf, hslice, String.ofList_toList]

theorem Rereads.foundAt {a : Alias} {o : Occurrence AliasStatement} (h : Rereads front a back o)
    (resolved : Bool) : FoundAt (byteLength (front.flatMap text), .derived a)
      (.derived { aliasOf o with resolved := resolved }) := by
  obtain ⟨room, more, -, hblank, htext, -⟩ := h.text_eq
  refine .derived h.offset_eq ⟨?_, ?_, h.portable.shape_eq, ?_⟩
  · rw [aliasOf, ← h.portable.name_eq, String.ofList_toList]
  · rw [aliasOf, ← h.portable.referenced_eq, String.ofList_toList]
  · rw [aliasOf, String.toList_ofList, htext, trimEnd_append_blank _ hblank]

theorem pairwise_placed_lt (h : ∀ s, declared s ∈ parts → s.bodyText.toList ≠ []) (pos : Nat) :
    (placed pos parts).Pairwise fun p q => p.1 < q.1 := by
  refine (pairwise_placed pos parts).imp_of_mem fun {p q} hp _ hle => ?_
  obtain ⟨front, back, hparts, -⟩ := mem_placed_iff.mp (show (p.1, p.2) ∈ _ from hp)
  have hne : byteLength p.2.bodyText.toList ≠ 0 := fun hzero =>
    h p.2 (hparts ▸ List.mem_append_right _ (List.mem_cons_self ..)) (byteLength_eq_zero.mp hzero)
  omega

/-- The symbols of the entities that are collected and of the live aliases are those that were put
there. -/
theorem Laid.forall₂_foundAt (h : Laid parts) {entities : List Entity}
    (hcollect : collectEntities (parts.flatMap text) (workingCopy (parts.flatMap text))
      (inertSpans (parts.flatMap text)) (aliasSpans (parts.flatMap text)) 0
      (occurrences entityHeader (workingCopy (parts.flatMap text))) = .ok entities)
    (hentities : List.Forall₂ (DeclaredBy (parts.flatMap text)) (declarations parts) entities) :
    List.Forall₂ FoundAt (placed 0 parts) (ofLists entities
      ((liveAliases (parts.flatMap text) (inertSpans (parts.flatMap text))).map aliasOf)).symbols := by
  have hplaced : ∀ {front s back}, parts = front ++ declared s :: back →
      (byteLength (front.flatMap text), s) ∈ placed 0 parts := fun hparts =>
    mem_placed_iff.mpr ⟨_, _, hparts, (Nat.zero_add _).symm⟩
  have hkey : ∀ place t, FoundAt place t → place.1 = t.offset := fun _ _ => FoundAt.offset_eq
  refine forall₂_of_keys hkey (pairwise_placed_lt (fun s hs => ?_) 0) (pairwise_offset_lt ?_)
    (fun ⟨n, s⟩ hplace => ?_) fun t ht => ?_
  · obtain ⟨tail, htail⟩ := (h.portable s hs).exists_cons
    rw [htail]
    exact List.cons_ne_nil _ _
  · rw [entities_ofLists, map_offset_aliases_ofLists]
    exact nodup_offsets_of_collectEntities hcollect
  · obtain ⟨front, back, hparts, rfl⟩ := mem_placed_iff.mp hplace
    rw [Nat.zero_add]
    cases s with
    | entity e =>
      obtain ⟨f, hf, hdeclares, -⟩ := h.exists_redeclares hparts
      obtain ⟨e', he', hdeclared⟩ :=
        exists_right_of_forall₂ hentities (mem_declarations_iff.mpr ⟨front, e, back, hparts, hf⟩)
      exact ⟨.entity e', entity_mem_symbols.mpr he', hdeclares.foundAt hparts hdeclared⟩
    | derived a =>
      obtain ⟨o, ho, hrereads⟩ := h.exists_rereads hparts
      have hmem := List.mem_map_of_mem (f := fun a : Alias =>
        { a with resolved := entities.any fun e => e.name = a.referencedEntity })
        (List.mem_map_of_mem (f := aliasOf) ho)
      exact ⟨_, derived_mem_symbols.mpr hmem, hrereads.foundAt _⟩
  · cases t with
    | entity e' =>
      obtain ⟨f, hf, hdeclared⟩ := exists_left_of_forall₂ hentities (entity_mem_symbols.mp ht)
      obtain ⟨front, e, back, hparts, hf⟩ := mem_declarations_iff.mp hf
      obtain ⟨f', hf', hdeclares, -⟩ := h.exists_redeclares hparts
      obtain rfl : f' = f := Option.some.inj (hf'.symm.trans hf)
      exact ⟨_, hplaced hparts, hdeclares.foundAt hparts hdeclared⟩
    | derived a' =>
      obtain ⟨a'', ha'', rfl⟩ := List.mem_map.mp (derived_mem_symbols.mp ht)
      obtain ⟨o, ho, rfl⟩ := List.mem_map.mp ha''
      obtain ⟨front, a, back, hparts, hrereads⟩ := h.exists_of_mem_liveAliases ho
      exact ⟨_, hplaced hparts, hrereads.foundAt _⟩

/-- A source that is laid out from symbols, an entity among them, has a catalog with these symbols, in
the same order. -/
theorem Laid.exists_extract (h : Laid parts) {source : String}
    (hsource : parts.flatMap text = source.toList)
    (hnames : ((parts.filterMap symbol?).map Symbol.name).Nodup)
    {e : Entity} (he : declared (.entity e) ∈ parts) (origin : String) :
    ∃ c, extract source origin = .ok c ∧ List.Forall₂ FoundAt (placed 0 parts) c.symbols := by
  obtain ⟨entities, hcollect, hentities⟩ :=
    h.collects.exists_collectEntities (parts.flatMap text) (aliasSpans (parts.flatMap text))
  have hfound := h.forall₂_foundAt hcollect hentities
  rw [hsource] at hcollect hfound
  refine ⟨_, extract_eq_of_collectEntities hcollect ?_ ?_ origin, hfound⟩
  · obtain ⟨front, back, hparts⟩ := List.append_of_mem he
    obtain ⟨f, hf, -⟩ := h.exists_redeclares hparts
    obtain ⟨e', he', -⟩ :=
      exists_right_of_forall₂ hentities (mem_declarations_iff.mpr ⟨front, e, back, hparts, hf⟩)
    exact List.ne_nil_of_mem he'
  · have hperm := map_name_symbols_perm (ofLists entities
      ((liveAliases source.toList (inertSpans source.toList)).map aliasOf))
    rw [entities_ofLists, map_name_aliases_ofLists, ← map_name_eq_of_foundAt hfound, map_snd_placed]
      at hperm
    rwa [← hperm.nodup_iff]

end Part

namespace Partition

variable {source origin : String} {config : Config} {p : Partition} {m : Module}

/-- Where no symbols share a byte, every symbol is portable. -/
theorem portable_of_disjoint (h : ofSource source origin config = .ok p)
    (hdisjoint : p.catalog.symbols.Pairwise fun s t => s.span.Disjoint t.span) {s : Symbol}
    (hs : s ∈ p.catalog.symbols) : s.Portable := by
  have hextract := (ofSource_eq_ok h).1
  cases s with
  | derived a => exact exists_portableAlias hextract (derived_mem_symbols.mp hs)
  | entity e =>
    refine exists_portableEntity hextract (entity_mem_symbols.mp hs) fun a ha => ?_
    have hsymm : Std.Symm fun s t : Symbol => s.span.Disjoint t.span := ⟨fun _ _ => Or.symm⟩
    exact hdisjoint.forall hs (derived_mem_symbols.mpr ha) (by simp)

/-- Then the body of a module is laid out from the symbols that the module owns. -/
theorem laid_ofSymbols (h : ofSource source origin config = .ok p)
    (hdisjoint : p.catalog.symbols.Pairwise fun s t => s.span.Disjoint t.span) (m : Module) :
    Part.Laid (Part.ofSymbols config.keepLeadingComments (p.symbolsOf m.name)) where
  settled _ hpart := settled_of_ofSource h hpart
  onLines := Part.onLines_ofSymbols _ _
  portable s hs := by
    rw [Part.declared_mem_iff, Part.filterMap_symbol?_ofSymbols] at hs
    exact portable_of_disjoint h hdisjoint (mem_symbolsOf.mp hs).1

/-- An alias is resolved in a module as it is in the schema: the entity that it refers to is in the same
module. -/
theorem resolved_eq (h : ofSource source origin config = .ok p) {c : Catalog} (hc : c.WellFormed)
    {places : List (Nat × Symbol)} (hplaces : places.map Prod.snd = p.symbolsOf m.name)
    (hfound : List.Forall₂ Part.FoundAt places c.symbols) {a a' : Alias}
    (ha : Symbol.derived a ∈ p.symbolsOf m.name) (ha' : Symbol.derived a' ∈ c.symbols)
    (hname : a.referencedEntity = a'.referencedEntity) : a.resolved = a'.resolved := by
  obtain ⟨hmem, howner⟩ := mem_symbolsOf.mp ha
  have hwf := wellFormed_catalog h
  rw [Bool.eq_iff_iff, hwf.resolved_iff a (derived_mem_symbols.mp hmem),
    hc.resolved_iff a' (derived_mem_symbols.mp ha')]
  constructor
  · rintro ⟨e, he, hentity⟩
    have hresolved := (hwf.resolved_iff a (derived_mem_symbols.mp hmem)).mpr ⟨e, he, hentity⟩
    have hsame : (Assignment.ofCatalog p.catalog config).1.ownerOf a.name =
        (Assignment.ofCatalog p.catalog config).1.ownerOf e.name :=
      Assignment.ownerOf_resolved hwf.names (derived_mem_symbols.mp hmem) he hresolved hentity
    rw [← assignment_eq h] at hsame
    have hin : Symbol.entity e ∈ p.symbolsOf m.name :=
      mem_symbolsOf.mpr ⟨entity_mem_symbols.mpr he, hsame.symm.trans howner⟩
    obtain ⟨⟨n, _⟩, hplace, rfl⟩ := List.mem_map.mp (hplaces ▸ hin)
    obtain ⟨t, ht, hat⟩ := exists_right_of_forall₂ hfound hplace
    cases hat with
    | entity _ restates =>
      exact ⟨_, entity_mem_symbols.mp ht, restates.name_eq.symm.trans (hentity.trans hname)⟩
  · rintro ⟨e', he', hentity⟩
    obtain ⟨⟨n, s⟩, hplace, hat⟩ := exists_left_of_forall₂ hfound (entity_mem_symbols.mpr he')
    have hs : s ∈ p.symbolsOf m.name := hplaces ▸ List.mem_map_of_mem hplace
    cases hat with
    | entity _ restates =>
      exact ⟨_, entity_mem_symbols.mp (mem_symbolsOf.mp hs).1,
        restates.name_eq.trans (hentity.trans hname.symm)⟩

/-- Where no symbols share a byte, the body of a module that owns an entity has a catalog, and its
symbols are those that the module owns, in order. -/
theorem bodies_reextract (h : ofSource source origin config = .ok p)
    (hdisjoint : p.catalog.symbols.Pairwise fun s t => s.span.Disjoint t.span) (hm : m ∈ p.modules)
    (hentity : ∃ e ∈ p.catalog.entities, e.name ∈ m.owned) (origin' : String) :
    ∃ c, Catalog.extract m.body origin' = .ok c ∧ c.symbols.map Symbol.name = m.owned ∧
      List.Forall₂ Symbol.Restates (p.symbolsOf m.name) c.symbols := by
  have hsymbols := Part.filterMap_symbol?_ofSymbols config.keepLeadingComments (p.symbolsOf m.name)
  have htext : (Part.ofSymbols config.keepLeadingComments (p.symbolsOf m.name)).flatMap Part.text =
      m.body.toList := by
    rw [Part.flatMap_text_ofSymbols, body_eq h hm]
  have hplaces := Part.map_snd_placed 0 (Part.ofSymbols config.keepLeadingComments (p.symbolsOf m.name))
  rw [hsymbols] at hplaces
  have hnames : ((p.symbolsOf m.name).map Symbol.name).Nodup := by
    rw [← owned_eq h hm]
    exact nodup_owned h hm
  obtain ⟨e, he, howned⟩ := hentity
  have hdeclared : Part.declared (.entity e) ∈
      Part.ofSymbols config.keepLeadingComments (p.symbolsOf m.name) := by
    have hs := entity_mem_symbols.mpr he
    rw [Part.declared_mem_iff, hsymbols]
    exact mem_symbolsOf.mpr ⟨hs, (name_mem_owned_iff h hm hs).mp howned⟩
  obtain ⟨c, hc, hfound⟩ := (laid_ofSymbols h hdisjoint m).exists_extract htext (by rwa [hsymbols])
    hdeclared origin'
  refine ⟨c, hc, ?_, ?_⟩
  · rw [← Part.map_name_eq_of_foundAt hfound, hplaces, owned_eq h hm]
  · rw [← hplaces, List.forall₂_map_left_iff]
    refine forall₂_imp_of_mem hfound fun place hplace t ht hat => ?_
    have hs : place.2 ∈ p.symbolsOf m.name := hplaces ▸ List.mem_map_of_mem hplace
    cases hat with
    | entity _ restates => exact .entity restates
    | derived _ restates =>
      exact .derived restates (resolved_eq h (wellFormed_of_extract hc) hplaces hfound hs ht
        restates.referencedEntity_eq)

/-- The module `base` of the sample, which starts with a comment, has the catalog of a table and of the
type derived from it. -/
theorem sample_bodies_reextract :
    ∃ p, ofSource sampleSource "sample" sampleConfig = .ok p ∧ ∃ m ∈ p.modules,
      m.owned = ["a", "A"] ∧ ∃ c, Catalog.extract m.body "base" = .ok c ∧
        c.symbols.map Symbol.name = ["a", "A"] ∧
        List.Forall₂ Symbol.Restates (p.symbolsOf m.name) c.symbols := by
  obtain ⟨p, base, rest, hp, hmodules, hbase, -⟩ := exists_sample
  have howned : base.owned = ["a", "A"] := congrArg Prod.snd hbase
  have hsome : ((ofSource sampleSource "sample" sampleConfig).toOption.map fun p =>
      decide (p.catalog.symbols.Pairwise fun s t => s.span.Disjoint t.span) &&
        (p.catalog.entities.map Entity.name).contains "a") = some true := by
    decide +kernel
  rw [hp] at hsome
  obtain ⟨hdisjoint, hentity⟩ := Bool.and_eq_true_iff.mp (Option.some.inj hsome)
  obtain ⟨e, he, hname⟩ := List.mem_map.mp (List.contains_iff_mem.mp hentity)
  have hm : base ∈ p.modules := by simp [hmodules]
  obtain ⟨c, hc, hnames, hsymbols⟩ := bodies_reextract hp (of_decide_eq_true hdisjoint) hm
    ⟨e, he, by rw [hname, howned]; simp⟩ "base"
  exact ⟨p, hp, base, hm, howned, c, hc, hnames.trans howned, hsymbols⟩

end Partition

end SchemaModules
