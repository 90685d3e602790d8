import Mathlib.Data.List.Nodup
import SchemaModules.Catalog.Basic

/-!
# Proofs: well-formed catalogs

A catalog is well formed when its symbols have names of their own and offsets of their own, and an alias
is marked as resolved exactly when its entity exists. The later stages rely on nothing else about where
a catalog comes from. A look-up finds the last symbol of a name, which then is the only one.
-/

namespace SchemaModules

namespace Symbol

@[simp] theorem name_entity (e : Entity) : (entity e).name = e.name := rfl
@[simp] theorem name_derived (a : Alias) : (derived a).name = a.name := rfl
@[simp] theorem offset_entity (e : Entity) : (entity e).offset = e.offset := rfl
@[simp] theorem offset_derived (a : Alias) : (derived a).offset = a.offset := rfl
@[simp] theorem bodyText_entity (e : Entity) : (entity e).bodyText = e.bodyText := rfl
@[simp] theorem bodyText_derived (a : Alias) : (derived a).bodyText = a.bodyText := rfl

end Symbol

namespace Catalog

/-- What the stages after extraction rely on. -/
structure WellFormed (c : Catalog) : Prop where
  /-- No two symbols have the same name. -/
  names : (c.symbols.map Symbol.name).Nodup
  /-- The symbols stand at increasing offsets. -/
  offsets : c.symbols.Pairwise fun a b => a.offset < b.offset
  /-- An alias is resolved exactly when the entity that it refers to exists. -/
  resolved_iff : ∀ a ∈ c.aliases,
    (a.resolved = true ↔ ∃ e ∈ c.entities, e.name = a.referencedEntity)

theorem symbols_perm (c : Catalog) :
    c.symbols.Perm (c.entities.map Symbol.entity ++ c.aliases.map Symbol.derived) :=
  stableSort_perm ..

theorem entity_mem_symbols {c : Catalog} {e : Entity} :
    Symbol.entity e ∈ c.symbols ↔ e ∈ c.entities := by
  rw [c.symbols_perm.mem_iff]
  simp

theorem derived_mem_symbols {c : Catalog} {a : Alias} :
    Symbol.derived a ∈ c.symbols ↔ a ∈ c.aliases := by
  rw [c.symbols_perm.mem_iff]
  simp

theorem map_name_symbols_perm (c : Catalog) :
    (c.symbols.map Symbol.name).Perm (c.entities.map Entity.name ++ c.aliases.map Alias.name) := by
  have h := c.symbols_perm.map Symbol.name
  rw [List.map_append, List.map_map, List.map_map] at h
  exact h

theorem map_offset_symbols_perm (c : Catalog) :
    (c.symbols.map Symbol.offset).Perm
      (c.entities.map Entity.offset ++ c.aliases.map Alias.offset) := by
  have h := c.symbols_perm.map Symbol.offset
  rw [List.map_append, List.map_map, List.map_map] at h
  exact h

theorem decide_offset_le_trans (a b c : Symbol) (hab : decide (a.offset ≤ b.offset) = true)
    (hbc : decide (b.offset ≤ c.offset) = true) : decide (a.offset ≤ c.offset) = true :=
  decide_eq_true (Nat.le_trans (of_decide_eq_true hab) (of_decide_eq_true hbc))

theorem decide_offset_le_total (a b : Symbol) :
    (decide (a.offset ≤ b.offset) || decide (b.offset ≤ a.offset)) = true := by
  simpa using Nat.le_total a.offset b.offset

theorem pairwise_offset_le (c : Catalog) : c.symbols.Pairwise fun a b => a.offset ≤ b.offset := by
  have h := pairwise_stableSort (fun a b : Symbol => decide (a.offset ≤ b.offset)) decide_offset_le_trans
    (fun a b => Bool.or_eq_true_iff.mp (decide_offset_le_total a b))
    (c.entities.map Symbol.entity ++ c.aliases.map Symbol.derived)
  exact h.imp fun hab => of_decide_eq_true hab

/-- Symbols with offsets of their own are listed at increasing offsets. -/
theorem pairwise_offset_lt {c : Catalog}
    (h : (c.entities.map Entity.offset ++ c.aliases.map Alias.offset).Nodup) :
    c.symbols.Pairwise fun a b => a.offset < b.offset := by
  have hne := List.pairwise_map.mp ((map_offset_symbols_perm c).nodup_iff.mpr h)
  exact ((pairwise_offset_le c).and hne).imp fun ⟨hle, hne⟩ => by omega

/-! ## Look-ups -/

section

variable {c : Catalog} {name : String} {s : Symbol} {e : Entity}

/-- A name leads to the last symbol that has it. -/
theorem get?_eq_some_iff : c.get? name = some s ↔ s.name = name ∧
    ∃ before after, c.symbols = before ++ s :: after ∧ ∀ later ∈ after, later.name ≠ name := by
  rw [get?, List.find?_eq_some_iff_append, decide_eq_true_eq]
  refine and_congr_right fun _ => ?_
  constructor
  · rintro ⟨after, before, hsplit, hlater⟩
    refine ⟨before.reverse, after.reverse, ?_, fun later hmem => ?_⟩
    · rw [← c.symbols.reverse_reverse, hsplit]
      simp
    · simpa using hlater later (List.mem_reverse.mp hmem)
  · rintro ⟨before, after, hsplit, hlater⟩
    refine ⟨after.reverse, before.reverse, ?_, fun later hmem => ?_⟩
    · rw [hsplit]
      simp
    · simpa using hlater later (List.mem_reverse.mp hmem)

theorem get?_eq_none_iff : c.get? name = none ↔ ∀ s ∈ c.symbols, s.name ≠ name := by
  simp [get?]

theorem entity?_eq_some_iff : c.entity? name = some e ↔ c.get? name = some (.entity e) := by
  unfold entity?
  cases c.get? name with
  | none => simp
  | some s => cases s <;> simp

/-- Where names are distinct, a name leads to the one symbol that has it. -/
theorem get?_eq_some_iff_of_nodup (hnames : (c.symbols.map Symbol.name).Nodup) :
    c.get? name = some s ↔ s ∈ c.symbols ∧ s.name = name := by
  rw [get?_eq_some_iff]
  constructor
  · rintro ⟨hname, before, after, hsplit, -⟩
    exact ⟨by simp [hsplit], hname⟩
  · rintro ⟨hs, rfl⟩
    obtain ⟨before, after, hsplit⟩ := List.append_of_mem hs
    refine ⟨rfl, before, after, hsplit, fun later hlater hname => ?_⟩
    rw [hsplit, List.map_append, List.map_cons] at hnames
    have hfresh := (List.nodup_cons.mp (List.nodup_append.mp hnames).2.1).1
    exact hfresh (hname ▸ List.mem_map_of_mem hlater)

/-- Where names are distinct, an entity is found by its name. -/
theorem exists_entity?_iff_of_nodup (hnames : (c.symbols.map Symbol.name).Nodup) :
    (∃ e, c.entity? name = some e) ↔ ∃ e ∈ c.entities, e.name = name := by
  simp only [entity?_eq_some_iff, get?_eq_some_iff_of_nodup hnames, entity_mem_symbols,
    Symbol.name_entity]

end

/-! ## Catalogs of lists -/

@[simp] theorem entities_ofLists (entities : List Entity) (aliases : List Alias) :
    (ofLists entities aliases).entities = entities := rfl

@[simp] theorem map_name_aliases_ofLists (entities : List Entity) (aliases : List Alias) :
    (ofLists entities aliases).aliases.map Alias.name = aliases.map Alias.name := by
  simp [ofLists]

@[simp] theorem map_offset_aliases_ofLists (entities : List Entity) (aliases : List Alias) :
    (ofLists entities aliases).aliases.map Alias.offset = aliases.map Alias.offset := by
  simp [ofLists]

/-- An alias of a catalog is resolved exactly when the entity that it refers to exists. -/
theorem resolved_ofLists {entities : List Entity} {aliases : List Alias} {a : Alias}
    (ha : a ∈ (ofLists entities aliases).aliases) : a.resolved = true ↔
      ∃ e ∈ (ofLists entities aliases).entities, e.name = a.referencedEntity := by
  obtain ⟨a', -, rfl⟩ := List.mem_map.mp ha
  simp [ofLists]

/-- A catalog is well formed when its lists share no name and no offset. -/
theorem wellFormed_ofLists {entities : List Entity} {aliases : List Alias}
    (hnames : (entities.map Entity.name ++ aliases.map Alias.name).Nodup)
    (hoffsets : (entities.map Entity.offset ++ aliases.map Alias.offset).Nodup) :
    (ofLists entities aliases).WellFormed := by
  refine ⟨?_, pairwise_offset_lt (by simpa using hoffsets), fun a ha => resolved_ofLists ha⟩
  rw [(map_name_symbols_perm _).nodup_iff]
  simpa using hnames

end Catalog

end SchemaModules
