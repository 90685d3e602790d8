import SchemaModules.Proofs.Placement

/-!
# Proofs: listings and the warnings about them

A name may be listed many times: twice in a bucket, in two buckets, in two buckets of one name. Only its
first listing counts. The listings are read in order, and each is compared with those before it; so the
warnings can be said listing by listing, by the position at which a listing stands.
-/

namespace SchemaModules

namespace Config

/-- The first bucket, in order, that lists `entity`. -/
def lister? (c : Config) (entity : String) : Option Bucket :=
  c.buckets.find? fun b => b.entities.contains entity

/-- The name of the first bucket that lists `entity`; of the default bucket when none does. -/
def homeOf (c : Config) (entity : String) : String :=
  ((c.lister? entity).map Bucket.name).getD c.defaultBucket

/-- The first listing of a name in one bucket. -/
theorem find?_map_pair (bucket entity : String) (names : List String) :
    (names.map fun e => (bucket, e)).find? (fun l => l.2 = entity) =
      if names.contains entity then some (bucket, entity) else none := by
  induction names with
  | nil => rfl
  | cons name names ih =>
    rw [List.map_cons]
    by_cases h : name = entity
    · subst h
      simp
    · rw [List.find?_cons_of_neg (by simpa using h), ih]
      have hne : ¬ entity = name := fun heq => h heq.symm
      simp [hne]

/-- The first listing of a name stands in the first bucket that lists it. -/
theorem firstBucket?_eq (c : Config) (entity : String) :
    c.firstBucket? entity = (c.lister? entity).map Bucket.name := by
  unfold firstBucket? lister? listings
  induction c.buckets with
  | nil => rfl
  | cons b buckets ih =>
    rw [List.flatMap_cons, List.find?_append, find?_map_pair]
    cases hlists : b.entities.contains entity with
    | true =>
      rw [List.find?_cons, hlists]
      rfl
    | false =>
      rw [List.find?_cons, hlists]
      exact ih

theorem bucketOf_eq_homeOf (c : Config) (entity : String) : c.bucketOf entity = c.homeOf entity := by
  rw [bucketOf, homeOf, firstBucket?_eq]

end Config

namespace Catalog

theorem isNone_entity?_iff {c : Catalog} (hnames : (c.symbols.map Symbol.name).Nodup) {name : String} :
    (c.entity? name).isNone = true ↔ ¬ ∃ e ∈ c.entities, e.name = name := by
  rw [← exists_entity?_iff_of_nodup hnames, ← Option.isSome_iff_exists]
  simp

/-! ## The warning about one listing -/

/-- The warning about the listing at position `i`. A name that is listed before has its place already,
and the listing is a duplicate if it is for another bucket. A name that is listed for the first time
should be that of an entity. -/
def warningAt? (catalog : Catalog) (config : Config) (i : Nat) : Option Warning :=
  match config.listings[i]? with
  | none => none
  | some (bucket, entity) =>
    if entity ∈ (config.listings.take i).map Prod.snd then
      if config.homeOf entity = bucket then none
      else some (.duplicateMember entity (config.homeOf entity) bucket)
    else if ∃ e ∈ catalog.entities, e.name = entity then none
    else some (.unknownMember bucket entity)

/-- The warning about an alias, if the entity that it refers to does not exist. -/
def strayWarning? (catalog : Catalog) (config : Config) : Symbol → Option Warning
  | .entity _ => none
  | .derived d =>
    if ∃ e ∈ catalog.entities, e.name = d.referencedEntity then none
    else some (.unresolvedAlias d.name d.referencedEntity config.defaultBucket)

section

variable {catalog : Catalog} {config : Config} {earlier rest : List (String × String)}

/-- A listing is warned about by its position, whatever comes after it. -/
theorem listingWarnings_cons (hnames : (catalog.symbols.map Symbol.name).Nodup)
    {bucket entity : String} (hsplit : config.listings = earlier ++ (bucket, entity) :: rest) :
    catalog.listingWarnings earlier ((bucket, entity) :: rest) =
      (catalog.warningAt? config earlier.length).toList ++
        catalog.listingWarnings (earlier ++ [(bucket, entity)]) rest := by
  have hat : config.listings[earlier.length]? = some (bucket, entity) := by
    rw [hsplit, List.getElem?_append_right (Nat.le_refl _), Nat.sub_self]
    rfl
  have htake : config.listings.take earlier.length = earlier := by
    rw [hsplit, List.take_left]
  rw [listingWarnings, warningAt?, hat]
  dsimp only
  rw [htake]
  congr 1
  cases hfind : earlier.find? fun l => l.2 = entity with
  | none =>
    have hfresh : entity ∉ earlier.map Prod.snd := by
      intro hmem
      obtain ⟨l, hl, hname⟩ := List.mem_map.mp hmem
      have hother := List.find?_eq_none.mp hfind l hl
      simp [hname] at hother
    rw [if_neg hfresh]
    by_cases hentity : ∃ e ∈ catalog.entities, e.name = entity
    · have hfound : ¬ (catalog.entity? entity).isNone = true :=
        fun hnone => (isNone_entity?_iff hnames).mp hnone hentity
      rw [if_pos hentity]
      exact if_neg hfound
    · rw [if_neg hentity]
      exact if_pos ((isNone_entity?_iff hnames).mpr hentity)
  | some l =>
    obtain ⟨kept, name⟩ := l
    obtain rfl : name = entity := by simpa using List.find?_some hfind
    have hlisted : name ∈ earlier.map Prod.snd :=
      List.mem_map_of_mem (f := Prod.snd) (List.mem_of_find?_eq_some hfind)
    have hhome : config.homeOf name = kept := by
      rw [← config.bucketOf_eq_homeOf, Config.bucketOf, Config.firstBucket?, hsplit,
        List.find?_append, hfind]
      rfl
    rw [if_pos hlisted, hhome]
    dsimp only
    split <;> rfl

/-- The listings are warned about one after the other. -/
theorem listingWarnings_eq (hnames : (catalog.symbols.map Symbol.name).Nodup)
    (hsplit : config.listings = earlier ++ rest) : catalog.listingWarnings earlier rest =
      (List.range' earlier.length rest.length).filterMap (catalog.warningAt? config) := by
  induction rest generalizing earlier with
  | nil => rfl
  | cons l rest ih =>
    have hsplit' : config.listings = (earlier ++ [l]) ++ rest := by
      rw [hsplit, List.append_assoc, List.singleton_append]
    have hlater := ih hsplit'
    rw [List.length_append, List.length_singleton] at hlater
    rw [listingWarnings_cons hnames hsplit, hlater, List.length_cons, List.range'_succ]
    cases hwarning : catalog.warningAt? config earlier.length with
    | none =>
      rw [List.filterMap_cons_none hwarning]
      rfl
    | some w =>
      rw [List.filterMap_cons_some hwarning]
      rfl

end

end Catalog

namespace Assignment

/-! ## The warnings about aliases -/

/-- Placing a symbol takes no other symbol its place. -/
theorem isSome_ownerOf_place {a : Assignment} {name module key : String}
    (h : (a.ownerOf key).isSome = true) : ((a.place name module).ownerOf key).isSome = true := by
  rw [ownerOf_place]
  split
  · rfl
  · exact h

/-- Where the entities of all resolved aliases have been placed, the other aliases are warned about. -/
theorem placeAliases_snd {fallback : String} {a : Assignment} {symbols : List Symbol}
    (h : ∀ d, Symbol.derived d ∈ symbols → d.resolved = true →
      (a.ownerOf d.referencedEntity).isSome = true) {w? : Symbol → Option Warning}
    (hentity : ∀ e, w? (.entity e) = none)
    (hderived : ∀ d, Symbol.derived d ∈ symbols → w? (.derived d) =
      if d.resolved = true then none else some (.unresolvedAlias d.name d.referencedEntity fallback)) :
    (placeAliases fallback a symbols).2 = symbols.filterMap w? := by
  induction symbols generalizing a with
  | nil => rfl
  | cons s symbols ih =>
    have hderived' : ∀ d, Symbol.derived d ∈ symbols → _ := fun d hd =>
      hderived d (List.mem_cons_of_mem _ hd)
    cases s with
    | entity e =>
      rw [List.filterMap_cons_none (hentity e)]
      exact ih (fun d hd => h d (List.mem_cons_of_mem _ hd)) hderived'
    | derived d =>
      have hplaced : ∀ owner d', Symbol.derived d' ∈ symbols → d'.resolved = true →
          ((a.place d.name owner).ownerOf d'.referencedEntity).isSome = true :=
        fun owner d' hd' hres => isSome_ownerOf_place (h d' (List.mem_cons_of_mem _ hd') hres)
      have hwarning := hderived d (List.mem_cons_self ..)
      rw [placeAliases]
      cases hres : d.resolved with
      | true =>
        obtain ⟨owner, howner⟩ := Option.isSome_iff_exists.mp (h d (List.mem_cons_self ..) hres)
        have halias : a.aliasOwner? d = some owner := by rw [aliasOwner?, if_pos hres, howner]
        rw [if_pos hres] at hwarning
        rw [halias, List.filterMap_cons_none hwarning]
        exact ih (hplaced owner) hderived'
      | false =>
        have halias : a.aliasOwner? d = none := by simp [aliasOwner?, hres]
        rw [if_neg (by simp [hres])] at hwarning
        rw [halias, List.filterMap_cons_some hwarning]
        exact congrArg _ (ih (hplaced fallback) hderived')

/-! ## The whole assignment -/

/-- Every symbol of a catalog has its place, and the warnings are about the listings without effect and
the aliases without an entity. -/
structure PlacesSymbols (catalog : Catalog) (config : Config) (placed : Assignment × List Warning) :
    Prop where
  /-- An entity is in the first bucket that lists it, or else in the default bucket. -/
  entities : ∀ e ∈ catalog.entities, placed.1.ownerOf e.name = some (config.homeOf e.name)
  /-- An alias is where the entity is that it refers to. -/
  aliases : ∀ d ∈ catalog.aliases, ∀ e ∈ catalog.entities, e.name = d.referencedEntity →
    placed.1.ownerOf d.name = placed.1.ownerOf e.name
  /-- An alias that refers to no entity is in the default bucket. -/
  strays : ∀ d ∈ catalog.aliases, (∀ e ∈ catalog.entities, e.name ≠ d.referencedEntity) →
    placed.1.ownerOf d.name = some config.defaultBucket
  /-- Nothing else has a place. -/
  others : ∀ name, (∀ s ∈ catalog.symbols, s.name ≠ name) → placed.1.ownerOf name = none
  /-- The listings are warned about in reading order, and then the aliases in source order. -/
  warnings : placed.2 = (List.range config.listings.length).filterMap (catalog.warningAt? config) ++
    catalog.symbols.filterMap (catalog.strayWarning? config)

theorem ofCatalog_snd (catalog : Catalog) (config : Config) : (ofCatalog catalog config).2 =
    catalog.listingWarnings [] config.listings ++
      (placeAliases config.defaultBucket (placeEntities config catalog.entities) catalog.symbols).2 := rfl

/-- The aliases that are warned about are those whose entity does not exist. -/
theorem placeAliases_snd_eq {catalog : Catalog} (config : Config)
    (hresolved : ∀ d ∈ catalog.aliases,
      (d.resolved = true ↔ ∃ e ∈ catalog.entities, e.name = d.referencedEntity)) :
    (placeAliases config.defaultBucket (placeEntities config catalog.entities) catalog.symbols).2 =
      catalog.symbols.filterMap (catalog.strayWarning? config) := by
  refine placeAliases_snd (fun d hd hres => ?_) (fun _ => rfl) (fun d hd => ?_)
  · obtain ⟨e, he, hname⟩ := (hresolved d (Catalog.derived_mem_symbols.mp hd)).mp hres
    rw [← hname, ownerOf_placeEntities, if_pos (List.mem_map_of_mem he)]
    rfl
  · exact if_congr (hresolved d (Catalog.derived_mem_symbols.mp hd)).symm rfl rfl

/-- Where names are declared once, whatever the configuration lists, every symbol is placed, and what
has no effect is warned about. -/
theorem ofCatalog_places_symbols (entities : List Entity) (aliases : List Alias) (config : Config)
    (hnames : (entities.map Entity.name ++ aliases.map Alias.name).Nodup) :
    PlacesSymbols (Catalog.ofLists entities aliases) config
      (ofCatalog (Catalog.ofLists entities aliases) config) := by
  generalize hc : Catalog.ofLists entities aliases = catalog
  have hnodup : (catalog.symbols.map Symbol.name).Nodup := by
    rw [(Catalog.map_name_symbols_perm catalog).nodup_iff, ← hc]
    simpa using hnames
  have hresolved : ∀ d ∈ catalog.aliases,
      (d.resolved = true ↔ ∃ e ∈ catalog.entities, e.name = d.referencedEntity) := by
    intro d hd
    rw [← hc] at hd ⊢
    exact Catalog.resolved_ofLists hd
  refine ⟨fun e he => ?_, fun d hd e he hname => ?_, fun d hd hno => ?_, fun name hno => ?_, ?_⟩
  · rw [ownerOf_entity hnodup he, config.bucketOf_eq_homeOf]
  · exact ownerOf_resolved hnodup hd he ((hresolved d hd).mpr ⟨e, he, hname⟩) hname
  · have hres : d.resolved = false := by
      rw [← Bool.not_eq_true, hresolved d hd]
      rintro ⟨e, he, hname⟩
      exact hno e he hname
    exact ownerOf_unresolved hnodup hd hres
  · have hentity : name ∉ catalog.entities.map Entity.name := by
      intro hmem
      obtain ⟨e, he, hname⟩ := List.mem_map.mp hmem
      exact hno _ (Catalog.entity_mem_symbols.mpr he) hname
    rw [ofCatalog_fst, ownerOf_placeAliases_of_not_mem fun d hd => hno _ hd, ownerOf_placeEntities,
      if_neg hentity]
  · rw [ofCatalog_snd, Catalog.listingWarnings_eq hnodup (List.nil_append _).symm,
      placeAliases_snd_eq config hresolved, List.range_eq_range']
    rfl

/-- The tables of a schema. -/
def crowdedEntities : List Entity := [⟨"a", "a", "", none, 0⟩, ⟨"b", "b", "", none, 9⟩]

/-- Three types, of which one derives from a table, one from another type and one from nothing. -/
def crowdedAliases : List Alias :=
  [⟨"A", "a", .read, "", false, 3⟩, ⟨"B", "A", .read, "", false, 5⟩, ⟨"C", "c", .write, "", true, 5⟩]

/-- A configuration that lists names twice, in two buckets, in buckets of one name, and names of no
table. -/
def crowdedConfig : Config :=
  { Config.standard with
    buckets := [⟨"x", ["a", "a", "A", "none"]⟩, ⟨"y", ["a", "none", "b"]⟩, ⟨"x", ["b", "a", "none"]⟩] }

theorem crowdedConfig_places_symbols :
    (crowdedEntities.map Entity.name ++ crowdedAliases.map Alias.name).Nodup ∧
    PlacesSymbols (Catalog.ofLists crowdedEntities crowdedAliases) crowdedConfig
      (ofCatalog (Catalog.ofLists crowdedEntities crowdedAliases) crowdedConfig) ∧
    (ofCatalog (Catalog.ofLists crowdedEntities crowdedAliases) crowdedConfig).2 =
      [.unknownMember "x" "A", .unknownMember "x" "none", .duplicateMember "a" "x" "y",
        .duplicateMember "none" "x" "y", .duplicateMember "b" "y" "x",
        .unresolvedAlias "B" "A" "assets", .unresolvedAlias "C" "c" "assets"] := by
  have hnames : (crowdedEntities.map Entity.name ++ crowdedAliases.map Alias.name).Nodup := by decide
  exact ⟨hnames, ofCatalog_places_symbols _ _ _ hnames, by decide +kernel⟩

end Assignment

end SchemaModules
