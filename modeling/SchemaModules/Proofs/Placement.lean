import SchemaModules.Assignment
import SchemaModules.Proofs.Symbols

/-!
# Proofs: who owns what

An entity is owned by the first bucket that lists it, a resolved alias by the owner of its entity, and
an unresolved one by the default bucket. The aliases are placed with an assignment that earlier aliases
have changed already. This does no harm as long as no alias has the name of an entity, which names of
their own rule out.
-/

namespace SchemaModules

/-- The bucket in which an entity of the given name is placed. -/
def Config.bucketOf (c : Config) (entity : String) : String :=
  (c.firstBucket? entity).getD c.defaultBucket

theorem Config.defaultBucket_mem_moduleOrder (c : Config) : c.defaultBucket ∈ c.moduleOrder := by
  unfold moduleOrder
  dsimp only
  split
  · rename_i h
    simpa using h
  · simp

theorem Config.bucketOf_mem_moduleOrder (c : Config) (entity : String) :
    c.bucketOf entity ∈ c.moduleOrder := by
  unfold bucketOf firstBucket?
  cases hfind : c.listings.find? fun l => l.2 = entity with
  | none => exact c.defaultBucket_mem_moduleOrder
  | some l =>
    obtain ⟨b, hb, e, -, rfl⟩ : ∃ b ∈ c.buckets, ∃ e ∈ b.entities, (b.name, e) = l := by
      simpa [listings] using List.mem_of_find?_eq_some hfind
    have hname : b.name ∈ c.buckets.map Bucket.name := List.mem_map_of_mem hb
    unfold moduleOrder
    dsimp only
    split
    · exact hname
    · exact List.mem_append_left _ hname

namespace Assignment

/-! ## Entities -/

/-- After the entities have been placed, their names are owned by their buckets, and no other name has
another owner than before. -/
theorem ownerOf_foldl_place (config : Config) (entities : List Entity) (a : Assignment)
    (key : String) :
    (entities.foldl (fun a e => a.place e.name (config.bucketOf e.name)) a).ownerOf key =
      if key ∈ entities.map Entity.name then some (config.bucketOf key) else a.ownerOf key := by
  induction entities generalizing a with
  | nil => simp
  | cons e entities ih =>
    rw [List.foldl_cons, ih, ownerOf_place]
    by_cases hrest : key ∈ entities.map Entity.name
    · simp [hrest]
    · by_cases hkey : key = e.name
      · simp [hkey]
      · simp [hrest, hkey]

theorem ownerOf_placeEntities (config : Config) (entities : List Entity) (key : String) :
    (placeEntities config entities).ownerOf key =
      if key ∈ entities.map Entity.name then some (config.bucketOf key) else none :=
  ownerOf_foldl_place config entities {} key

/-! ## Aliases -/

/-- Placing the aliases changes no owner of another name. -/
theorem ownerOf_placeAliases_of_not_mem {fallback : String} {a : Assignment}
    {symbols : List Symbol} {key : String} (h : ∀ d, Symbol.derived d ∈ symbols → d.name ≠ key) :
    (placeAliases fallback a symbols).1.ownerOf key = a.ownerOf key := by
  induction symbols generalizing a with
  | nil => rfl
  | cons s symbols ih =>
    have hrest : ∀ d, Symbol.derived d ∈ symbols → d.name ≠ key := fun d hd =>
      h d (List.mem_cons_of_mem _ hd)
    cases s with
    | entity e => exact ih hrest
    | derived d =>
      have hne : key ≠ d.name := (h d (List.mem_cons_self ..)).symm
      have hplace : ∀ owner, (a.place d.name owner).ownerOf key = a.ownerOf key := fun owner => by
        rw [ownerOf_place, if_neg hne]
      rw [placeAliases]
      split
      · rw [ih hrest, hplace]
      · exact (ih hrest).trans (hplace fallback)

/-- An alias gets the owner that its entity had before any alias was placed, or else the fallback: no
alias before it has changed the owner of the entity. -/
theorem ownerOf_placeAliases_of_mem {fallback : String} {a : Assignment} {symbols : List Symbol}
    {d : Alias} (hd : Symbol.derived d ∈ symbols) (hnodup : (symbols.map Symbol.name).Nodup)
    (hentity : d.resolved = true → ∀ d', Symbol.derived d' ∈ symbols →
      d'.name ≠ d.referencedEntity) :
    (placeAliases fallback a symbols).1.ownerOf d.name =
      some ((a.aliasOwner? d).getD fallback) := by
  induction symbols generalizing a with
  | nil => simp at hd
  | cons s symbols ih =>
    obtain ⟨hfresh, htail⟩ := List.nodup_cons.mp hnodup
    have hentity' : d.resolved = true → ∀ d', Symbol.derived d' ∈ symbols →
        d'.name ≠ d.referencedEntity := fun hres d' hd' =>
      hentity hres d' (List.mem_cons_of_mem _ hd')
    -- either `d` is placed now, or it is placed later and `s` changes nothing for it
    cases s with
    | entity e =>
      rcases List.mem_cons.mp hd with hd | hd
      · simp at hd
      · exact ih hd htail hentity'
    | derived b =>
      rcases List.mem_cons.mp hd with hd | hd
      · obtain rfl := Symbol.derived.inj hd
        -- nothing after the alias has its name
        have hrest : ∀ d', Symbol.derived d' ∈ symbols → d'.name ≠ d.name := by
          intro d' hd' hname
          have hmem : d'.name ∈ symbols.map Symbol.name := List.mem_map_of_mem hd'
          rw [hname] at hmem
          exact hfresh hmem
        rw [placeAliases]
        split
        · rename_i owner howner
          rw [ownerOf_placeAliases_of_not_mem hrest, ownerOf_place, if_pos rfl, howner]
          rfl
        · rename_i hnone
          rw [hnone]
          refine (ownerOf_placeAliases_of_not_mem hrest).trans ?_
          rw [ownerOf_place, if_pos rfl]
          rfl
      · have hsame : ∀ owner, (a.place b.name owner).aliasOwner? d = a.aliasOwner? d := by
          intro owner
          unfold aliasOwner?
          split
          · rename_i hres
            have hne := (hentity hres b (List.mem_cons_self ..)).symm
            rw [ownerOf_place, if_neg hne]
          · rfl
        rw [placeAliases]
        split
        · rw [ih hd htail hentity', hsame]
        · refine (ih hd htail hentity').trans ?_
          rw [hsame]

/-! ## The symbols of a catalog -/

section

variable {c : Catalog} {config : Config}

/-- Where symbols have names of their own, no alias has the name of an entity. -/
theorem name_ne_of_mem (hnames : (c.symbols.map Symbol.name).Nodup) {e : Entity}
    (he : e ∈ c.entities) {d : Alias} (hd : Symbol.derived d ∈ c.symbols) : d.name ≠ e.name := by
  intro hname
  have := List.inj_on_of_nodup_map hnames hd (Catalog.entity_mem_symbols.mpr he) hname
  simp at this

theorem ofCatalog_fst (c : Catalog) (config : Config) : (ofCatalog c config).1 =
    (placeAliases config.defaultBucket (placeEntities config c.entities) c.symbols).1 := rfl

theorem ownerOf_entity (hnames : (c.symbols.map Symbol.name).Nodup) {e : Entity}
    (he : e ∈ c.entities) :
    (ofCatalog c config).1.ownerOf e.name = some (config.bucketOf e.name) := by
  rw [ofCatalog_fst, ownerOf_placeAliases_of_not_mem fun d hd => name_ne_of_mem hnames he hd,
    ownerOf_placeEntities, if_pos (List.mem_map_of_mem he)]

theorem ownerOf_resolved (hnames : (c.symbols.map Symbol.name).Nodup) {d : Alias}
    (hd : d ∈ c.aliases) {e : Entity} (he : e ∈ c.entities) (hres : d.resolved = true)
    (hname : e.name = d.referencedEntity) :
    (ofCatalog c config).1.ownerOf d.name = (ofCatalog c config).1.ownerOf e.name := by
  have hne : ∀ d', Symbol.derived d' ∈ c.symbols → d'.name ≠ d.referencedEntity :=
    fun d' hd' => hname ▸ name_ne_of_mem hnames he hd'
  have howner : (placeEntities config c.entities).aliasOwner? d = some (config.bucketOf e.name) := by
    rw [aliasOwner?, if_pos hres, ← hname, ownerOf_placeEntities, if_pos (List.mem_map_of_mem he)]
  rw [ownerOf_entity hnames he, ofCatalog_fst,
    ownerOf_placeAliases_of_mem (Catalog.derived_mem_symbols.mpr hd) hnames fun _ => hne, howner]
  rfl

theorem ownerOf_unresolved (hnames : (c.symbols.map Symbol.name).Nodup) {d : Alias}
    (hd : d ∈ c.aliases) (hres : d.resolved = false) :
    (ofCatalog c config).1.ownerOf d.name = some config.defaultBucket := by
  have hnone : (placeEntities config c.entities).aliasOwner? d = none := by
    simp [aliasOwner?, hres]
  rw [ofCatalog_fst, ownerOf_placeAliases_of_mem (Catalog.derived_mem_symbols.mpr hd) hnames
    (by simp [hres]), hnone]
  rfl

theorem exists_ownerOf (config : Config) (hc : c.WellFormed) {s : Symbol} (hs : s ∈ c.symbols) :
    ∃ m ∈ config.moduleOrder, (ofCatalog c config).1.ownerOf s.name = some m := by
  cases s with
  | entity e =>
    exact ⟨_, config.bucketOf_mem_moduleOrder e.name,
      ownerOf_entity hc.names (Catalog.entity_mem_symbols.mp hs)⟩
  | derived d =>
    have hd := Catalog.derived_mem_symbols.mp hs
    cases hres : d.resolved with
    | true =>
      obtain ⟨e, he, hname⟩ := (hc.resolved_iff d hd).mp hres
      exact ⟨_, config.bucketOf_mem_moduleOrder e.name,
        (ownerOf_resolved hc.names hd he hres hname).trans (ownerOf_entity hc.names he)⟩
    | false =>
      exact ⟨_, config.defaultBucket_mem_moduleOrder, ownerOf_unresolved hc.names hd hres⟩

end

end Assignment

end SchemaModules
