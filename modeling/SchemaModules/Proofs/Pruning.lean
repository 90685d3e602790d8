import SchemaModules.Output.Render
import SchemaModules.Proofs.Listings
import SchemaModules.Proofs.Modules

/-!
# Proofs: listings without effect

Only the first listing of a name counts, and only if the source declares an entity of this name. A
configuration from which all other listings are pruned leads to the same modules, and to no warning about
its listings. Buckets that lose all their listings stay, since they have their place in module order.
-/

namespace SchemaModules

namespace Config

/-- In each bucket the declared names that no bucket before it lists, each once; the names `earlier` are
listed before all of the buckets. -/
def prunedFrom (declared : List String) : List String → List Bucket → List Bucket
  | _, [] => []
  | earlier, b :: rest =>
    ⟨b.name, b.entities.eraseDups.filter fun e => declared.contains e && !earlier.contains e⟩ ::
      prunedFrom declared (earlier ++ b.entities) rest

/-- The configuration without the listings of names that are not declared, and without those after the
first one of a name. -/
def pruned (c : Config) (declared : List String) : Config :=
  { c with buckets := prunedFrom declared [] c.buckets }

example : prunedFrom ["a", "b"] [] [⟨"x", ["a", "c", "a"]⟩, ⟨"y", ["a", "c"]⟩, ⟨"x", ["b", "a"]⟩] =
    [⟨"x", ["a"]⟩, ⟨"y", []⟩, ⟨"x", ["b"]⟩] := by decide

section

variable {declared earlier : List String} {buckets : List Bucket}

theorem nodup_eraseDups (names : List String) : names.eraseDups.Nodup := by
  cases names with
  | nil => simp
  | cons name names =>
    rw [List.eraseDups_cons, List.nodup_cons]
    constructor
    · rw [List.mem_eraseDups, List.mem_filter]
      rintro ⟨-, hne⟩
      simp at hne
    · exact nodup_eraseDups _
termination_by names.length
decreasing_by
  -- what is looked at next is not the tail but a part of it
  have hle := List.length_filter_le (fun n => !n == name) names
  rw [List.length_cons]
  omega

theorem map_name_prunedFrom :
    (prunedFrom declared earlier buckets).map Bucket.name = buckets.map Bucket.name := by
  induction buckets generalizing earlier with
  | nil => rfl
  | cons b buckets ih => rw [prunedFrom, List.map_cons, List.map_cons, ih]

@[simp] theorem moduleOrder_pruned (c : Config) (declared : List String) :
    (c.pruned declared).moduleOrder = c.moduleOrder := by
  unfold moduleOrder pruned
  dsimp only
  rw [map_name_prunedFrom]

theorem bucketDefect?_prunedFrom {seen : List String} :
    bucketDefect? seen (prunedFrom declared earlier buckets) = bucketDefect? seen buckets := by
  induction buckets generalizing seen earlier with
  | nil => rfl
  | cons b buckets ih => rw [prunedFrom, bucketDefect?, bucketDefect?, ih]

/-- Pruning makes no configuration valid or invalid. -/
theorem valid_pruned_iff (c : Config) (declared : List String) :
    (c.pruned declared).Valid ↔ c.Valid := by
  unfold Valid defect?
  rw [moduleOrder_pruned, pruned, bucketDefect?_prunedFrom]
  rfl

/-- A declared name is listed first in the same bucket as before. -/
theorem find?_prunedFrom {entity : String} (hdeclared : entity ∈ declared) (hfresh : entity ∉ earlier) :
    ((prunedFrom declared earlier buckets).find? fun b => b.entities.contains entity).map Bucket.name =
      (buckets.find? fun b => b.entities.contains entity).map Bucket.name := by
  induction buckets generalizing earlier with
  | nil => rfl
  | cons b buckets ih =>
    have hkept : (b.entities.eraseDups.filter fun e =>
        declared.contains e && !earlier.contains e).contains entity = b.entities.contains entity := by
      rw [Bool.eq_iff_iff]
      simp [hdeclared, hfresh]
    rw [prunedFrom, List.find?_cons, List.find?_cons]
    dsimp only
    rw [hkept]
    cases hlists : b.entities.contains entity with
    | true => rfl
    | false =>
      have hfresh' : entity ∉ earlier ++ b.entities := by
        rw [List.mem_append, not_or]
        exact ⟨hfresh, by simpa using hlists⟩
      exact ih hfresh'

theorem homeOf_pruned {entity : String} (h : entity ∈ declared) (c : Config) :
    (c.pruned declared).homeOf entity = c.homeOf entity := by
  unfold homeOf lister?
  exact congrArg (Option.getD · c.defaultBucket) (find?_prunedFrom h List.not_mem_nil)

/-! ## The listings that are left -/

/-- Every name that is still listed is declared, and is not among the earlier names. -/
theorem mem_listings_prunedFrom {l : String × String}
    (h : l ∈ (prunedFrom declared earlier buckets).flatMap fun b => b.entities.map fun e => (b.name, e)) :
    l.2 ∈ declared ∧ l.2 ∉ earlier := by
  induction buckets generalizing earlier with
  | nil => simp [prunedFrom] at h
  | cons b buckets ih =>
    rw [prunedFrom, List.flatMap_cons, List.mem_append] at h
    rcases h with h | h
    · obtain ⟨e, he, rfl⟩ := List.mem_map.mp h
      simpa using (List.mem_filter.mp he).2
    · obtain ⟨hdeclared, hfresh⟩ := ih h
      exact ⟨hdeclared, fun hmem => hfresh (List.mem_append_left _ hmem)⟩

/-- No name is listed twice any more. -/
theorem nodup_listings_prunedFrom : (((prunedFrom declared earlier buckets).flatMap fun b =>
    b.entities.map fun e => (b.name, e)).map Prod.snd).Nodup := by
  induction buckets generalizing earlier with
  | nil => simp [prunedFrom]
  | cons b buckets ih =>
    rw [prunedFrom, List.flatMap_cons, List.map_append, List.map_map]
    refine List.nodup_append.mpr ⟨?_, ih, ?_⟩
    · have hsame : (Prod.snd ∘ fun e => (b.name, e)) = (id : String → String) := rfl
      rw [hsame, List.map_id]
      exact (nodup_eraseDups _).filter _
    · intro name hname name' hname' heq
      obtain ⟨e, he, rfl⟩ := List.mem_map.mp hname
      obtain ⟨l, hl, rfl⟩ := List.mem_map.mp hname'
      -- what a later bucket still lists is not among the listings of this one
      have hfresh := (mem_listings_prunedFrom hl).2
      rw [← heq] at hfresh
      exact hfresh (List.mem_append_right _ (List.mem_eraseDups.mp (List.mem_filter.mp he).1))

end

end Config

/-- The warning is about a listing of a configuration. -/
def Warning.isAboutListing : Warning → Bool
  | .duplicateMember .. => true
  | .unknownMember .. => true
  | _ => false

namespace Catalog

variable {catalog : Catalog} {config : Config}

theorem isAboutListing_of_warningAt? {i : Nat} {w : Warning}
    (h : catalog.warningAt? config i = some w) : w.isAboutListing = true := by
  unfold warningAt? at h
  split at h
  · simp at h
  · split at h
    · split at h
      · simp at h
      · rw [← Option.some.inj h]
        rfl
    · split at h
      · simp at h
      · rw [← Option.some.inj h]
        rfl

theorem isAboutListing_of_strayWarning? {s : Symbol} {w : Warning}
    (h : catalog.strayWarning? config s = some w) : w.isAboutListing = false := by
  cases s with
  | entity e => simp [strayWarning?] at h
  | derived d =>
    rw [strayWarning?] at h
    split at h
    · simp at h
    · rw [← Option.some.inj h]
      rfl

/-- Where every listing is the first of its name, and this is the name of an entity, nothing is warned
about. -/
theorem warningAt?_eq_none (hnodup : (config.listings.map Prod.snd).Nodup)
    (hentity : ∀ l ∈ config.listings, ∃ e ∈ catalog.entities, e.name = l.2) (i : Nat) :
    catalog.warningAt? config i = none := by
  unfold warningAt?
  cases hat : config.listings[i]? with
  | none => rfl
  | some l =>
    obtain ⟨hlt, hl⟩ := List.getElem?_eq_some_iff.mp hat
    have hfresh : l.2 ∉ (config.listings.take i).map Prod.snd := by
      rw [← List.take_append_drop i config.listings, List.map_append, List.drop_eq_getElem_cons hlt, hl,
        List.map_cons] at hnodup
      intro hmem
      exact (List.nodup_append.mp hnodup).2.2 _ hmem _ (List.mem_cons_self ..) rfl
    dsimp only
    rw [if_neg hfresh, if_pos (hentity l (hl ▸ List.getElem_mem hlt))]

end Catalog

namespace Assignment

variable {catalog : Catalog}

/-- Of the listings the assignment depends only on the first ones of its entities. -/
theorem placeEntities_pruned (config : Config) (entities : List Entity) :
    placeEntities (config.pruned (entities.map Entity.name)) entities = placeEntities config entities := by
  refine List.foldl_ext _ _ _ fun a e he => ?_
  have hhome := Config.homeOf_pruned (List.mem_map_of_mem (f := Entity.name) he) config
  rw [← Config.bucketOf_eq_homeOf, ← Config.bucketOf_eq_homeOf] at hhome
  exact congrArg (a.place e.name) hhome

theorem ofCatalog_fst_pruned (config : Config) (catalog : Catalog) :
    (ofCatalog catalog (config.pruned (catalog.entities.map Entity.name))).1 =
      (ofCatalog catalog config).1 := by
  rw [ofCatalog_fst, ofCatalog_fst, placeEntities_pruned]
  rfl

/-- Pruning takes away the warnings about listings, and no other. -/
theorem ofCatalog_snd_pruned (hc : catalog.WellFormed) (config : Config) :
    (ofCatalog catalog (config.pruned (catalog.entities.map Entity.name))).2 =
      (ofCatalog catalog config).2.filter fun w => !w.isAboutListing := by
  have hprunedListings : catalog.listingWarnings []
      (config.pruned (catalog.entities.map Entity.name)).listings = [] := by
    rw [Catalog.listingWarnings_eq hc.names (List.nil_append _).symm]
    refine List.filterMap_eq_nil_iff.mpr fun i _ => Catalog.warningAt?_eq_none ?_ (fun l hl => ?_) i
    · exact Config.nodup_listings_prunedFrom
    · exact List.mem_map.mp (Config.mem_listings_prunedFrom hl).1
  have hlistings : (catalog.listingWarnings [] config.listings).filter
      (fun w => !w.isAboutListing) = [] := by
    rw [Catalog.listingWarnings_eq hc.names (List.nil_append _).symm]
    refine List.filter_eq_nil_iff.mpr fun w hw => ?_
    obtain ⟨i, -, hwarning⟩ := List.mem_filterMap.mp hw
    simp [Catalog.isAboutListing_of_warningAt? hwarning]
  rw [ofCatalog_snd, ofCatalog_snd, hprunedListings, List.nil_append, List.filter_append, hlistings,
    List.nil_append, placeAliases_snd_eq _ hc.resolved_iff, placeAliases_snd_eq _ hc.resolved_iff]
  refine (List.filter_eq_self.mpr fun w hw => ?_).symm
  obtain ⟨s, -, hwarning⟩ := List.mem_filterMap.mp hw
  simp [Catalog.isAboutListing_of_strayWarning? hwarning]

end Assignment

namespace Partition

open Output

/-- The partition of a catalog under a pruned configuration is that under the configuration itself, but
for the warnings about listings. -/
theorem ofCatalog_pruned {catalog : Catalog} (hc : catalog.WellFormed) (config : Config) :
    ofCatalog catalog (config.pruned (catalog.entities.map Entity.name)) =
      { ofCatalog catalog config with
        warnings := (ofCatalog catalog config).warnings.filter fun w => !w.isAboutListing } := by
  have hcycles : ∀ cycles : List (List String),
      (cycles.map Warning.importCycle).filter (fun w => !w.isAboutListing) =
        cycles.map Warning.importCycle := by
    intro cycles
    refine List.filter_eq_self.mpr fun w hw => ?_
    obtain ⟨c, -, rfl⟩ := List.mem_map.mp hw
    rfl
  unfold ofCatalog
  dsimp only
  rw [Assignment.ofCatalog_fst_pruned, Assignment.ofCatalog_snd_pruned hc, Config.moduleOrder_pruned,
    List.filter_append, hcycles]
  rfl

/-- What comes of a configuration and of the pruned one is the same, but for the warnings about
listings. -/
structure SameBesidesListings (p q : Partition) (c c' : Config) : Prop where
  /-- The one configuration is valid if the other is. -/
  valid_iff : c'.Valid ↔ c.Valid
  /-- Every symbol has the same owner. -/
  assignment : q.assignment = p.assignment
  /-- The modules are the same. -/
  modules : q.modules = p.modules
  /-- They refer to each other in the same way. -/
  edges : q.edges = p.edges
  /-- The same cycles are reported. -/
  cycles : q.cycles = p.cycles
  /-- The same files are written. -/
  files : render q c' = render p c
  /-- The warnings are the same, in the same order, but for those about listings, which are gone. -/
  warnings : q.warnings = p.warnings.filter fun w => !w.isAboutListing

/-- Listings after the first one of a name, and listings of names that the source does not declare, have
no effect on the output. -/
theorem pruning_changes_nothing (source origin : String) (config : Config) :
    (∃ e, ofSource source origin config = .error e ∧
      ∀ declared, ofSource source origin (config.pruned declared) = .error e) ∨
    ∃ p q, ofSource source origin config = .ok p ∧
      ofSource source origin (config.pruned (p.catalog.entities.map Entity.name)) = .ok q ∧
      SameBesidesListings p q config (config.pruned (p.catalog.entities.map Entity.name)) := by
  unfold ofSource
  cases hextract : Catalog.extract source origin with
  | error e => exact Or.inl ⟨e, rfl, fun _ => rfl⟩
  | ok c =>
    refine Or.inr ⟨ofCatalog c config, _, rfl, rfl, ?_⟩
    have hpruned := ofCatalog_pruned (Catalog.wellFormed_of_extract hextract) config
    show SameBesidesListings _ (ofCatalog c (config.pruned (c.entities.map Entity.name))) _ _
    rw [hpruned]
    exact ⟨config.valid_pruned_iff _, rfl, rfl, rfl, rfl, rfl, rfl⟩

end Partition

end SchemaModules
