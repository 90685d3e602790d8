import Mathlib.Data.List.FinRange
import SchemaModules.Catalog.Index
import SchemaModules.Lookup
import SchemaModules.Proofs.Symbols

/-!
# Proofs: the order of a catalog and its look-ups agree

A catalog may be made of any lists: names may be there more than once, and offsets may tie. Its symbols are
the items of the two lists in a stable order, and a name leads to the last of them that has it, whether it is
looked up in the table of names or by going through the symbols.
-/

namespace SchemaModules

/-! ## Stable sorting -/

section

variable {α β : Type} {le : α → α → Bool}

/-- An element goes before the first one that it may precede. -/
theorem insertSorted_append {x : α} {xs ys : List α} (hxs : ∀ y ∈ xs, le x y = false)
    (hys : ∀ y ∈ ys.head?, le x y = true) : insertSorted le x (xs ++ ys) = xs ++ x :: ys := by
  induction xs with
  | nil =>
    cases ys with
    | nil => rfl
    | cons y ys => exact if_pos (hys y rfl)
  | cons y xs ih =>
    obtain ⟨hy, hrest⟩ := List.forall_mem_cons.mp hxs
    rw [List.cons_append, insertSorted, if_neg (by simp [hy]), ih hrest]
    rfl

/-- Inserting one element after the other is the library's stable sort. -/
theorem stableSort_eq_mergeSort (trans : ∀ a b c, le a b → le b c → le a c)
    (total : ∀ a b, le a b || le b a) (xs : List α) : stableSort le xs = xs.mergeSort le := by
  induction xs with
  | nil => rw [stableSort, List.mergeSort_nil]
  | cons x xs ih =>
    obtain ⟨front, back, hcons, hxs, hfront⟩ := List.mergeSort_cons trans total x xs
    have hsorted := List.pairwise_mergeSort trans total (x :: xs)
    rw [hcons] at hsorted
    have hback := List.pairwise_cons.mp (List.pairwise_append.mp hsorted).2.1
    rw [stableSort, ih, hxs, hcons]
    refine insertSorted_append (fun y hy => by simpa using hfront y hy) fun y hy => ?_
    exact hback.1 y (List.mem_of_mem_head? hy)

theorem map_insertSorted {le' : β → β → Bool} {f : α → β} (h : ∀ a b, le a b = le' (f a) (f b))
    (x : α) (ys : List α) : (insertSorted le x ys).map f = insertSorted le' (f x) (ys.map f) := by
  induction ys with
  | nil => rfl
  | cons y ys ih =>
    rw [insertSorted, List.map_cons, insertSorted, ← h]
    split
    · rfl
    · rw [List.map_cons, ih]

/-- Sorting commutes with a function that keeps the order. -/
theorem map_stableSort {le' : β → β → Bool} (f : α → β) (h : ∀ a b, le a b = le' (f a) (f b))
    (xs : List α) : (stableSort le xs).map f = stableSort le' (xs.map f) := by
  induction xs with
  | nil => rfl
  | cons x xs ih => rw [stableSort, map_insertSorted h, ih, List.map_cons, stableSort]

end

namespace Catalog

/-! ## The order -/

theorem symbols_eq_mergeSort (c : Catalog) : c.symbols =
    (c.entities.map Symbol.entity ++ c.aliases.map Symbol.derived).mergeSort
      fun a b => a.offset ≤ b.offset :=
  stableSort_eq_mergeSort decide_offset_le_trans decide_offset_le_total _

/-- Symbols at one offset are listed as they were given. -/
theorem filter_symbols (c : Catalog) (n : Nat) : (c.symbols.filter fun s => s.offset = n) =
    (c.entities.map Symbol.entity ++ c.aliases.map Symbol.derived).filter fun s => s.offset = n := by
  have hperm := c.symbols_perm.filter fun s => decide (s.offset = n)
  have hsort := c.symbols_eq_mergeSort
  generalize c.entities.map Symbol.entity ++ c.aliases.map Symbol.derived = items at hperm hsort ⊢
  have htied : (items.filter fun s => s.offset = n).Pairwise
      fun a b => decide (a.offset ≤ b.offset) = true := by
    refine List.pairwise_of_forall_mem_list fun a ha b hb => decide_eq_true ?_
    have hoffset : a.offset = n := of_decide_eq_true (List.mem_filter.mp ha).2
    have hoffset' : b.offset = n := of_decide_eq_true (List.mem_filter.mp hb).2
    omega
  -- what ties is in order already, so the sort leaves it in place
  have hsub : (items.filter fun s => s.offset = n).Sublist c.symbols :=
    hsort ▸ List.sublist_mergeSort decide_offset_le_trans decide_offset_le_total htied
      List.filter_sublist
  have hfilter := hsub.filter fun s => decide (s.offset = n)
  simp only [List.filter_filter, Bool.and_self] at hfilter
  exact (hfilter.eq_of_length hperm.length_eq.symm).symm

/-- The slots hold the items of the lists. -/
theorem map_symbolAt_slots (c : Catalog) : c.slots.map c.symbolAt =
    c.entities.map Symbol.entity ++ c.aliases.map Symbol.derived := by
  have hentities := congrArg (List.map Symbol.entity) (List.map_getElem_finRange c.entities)
  have haliases := congrArg (List.map Symbol.derived) (List.map_getElem_finRange c.aliases)
  rw [List.map_map] at hentities haliases
  rw [slots, List.map_append, List.map_map, List.map_map]
  exact congrArg₂ (· ++ ·) hentities haliases

/-- The slots in order hold the symbols in order. -/
theorem map_symbolAt_order (c : Catalog) : c.order.map c.symbolAt = c.symbols := by
  have hmap : c.order.map c.symbolAt =
      stableSort (fun a b => a.offset ≤ b.offset) (c.slots.map c.symbolAt) :=
    @map_stableSort _ _ _ (fun a b : Symbol => a.offset ≤ b.offset) c.symbolAt (fun _ _ => rfl) c.slots
  rw [hmap, map_symbolAt_slots]
  rfl

/-- Every slot is listed once. -/
theorem nodup_order (c : Catalog) : c.order.Nodup := by
  refine (stableSort_perm _ c.slots).nodup_iff.mpr (List.nodup_append.mpr ⟨?_, ?_, ?_⟩)
  · exact (List.nodup_finRange _).map fun i j h => by simpa using h
  · exact (List.nodup_finRange _).map fun i j h => by simpa using h
  · simp

theorem mem_order (c : Catalog) (slot : c.Slot) : slot ∈ c.order := by
  rw [order, mem_stableSort, slots, List.mem_append]
  cases slot with
  | entity i => exact Or.inl (List.mem_map_of_mem (List.mem_finRange i))
  | derived i => exact Or.inr (List.mem_map_of_mem (List.mem_finRange i))

/-! ## Look-ups -/

section

variable {c : Catalog} {name : String}

/-- When slots have been entered one after the other, a name leads to the last of them that has it, or else
to where it led before. -/
theorem lookup_foldl_enter (slots : List c.Slot) (table : List (String × c.Slot)) :
    (slots.foldl c.enter table).lookup name =
      (slots.reverse.find? fun slot => (c.symbolAt slot).name = name).or (table.lookup name) := by
  induction slots generalizing table with
  | nil => rfl
  | cons slot slots ih =>
    rw [List.foldl_cons, ih, enter, lookup_replace, List.reverse_cons, List.find?_append, Option.or_assoc]
    congr 1
    by_cases hname : name = (c.symbolAt slot).name
    · simp [hname]
    · simp [hname, Ne.symm hname]

/-- A name leads to the same symbol in the table of names and among the symbols. -/
theorem find?_eq_get? : c.find? name = c.get? name := by
  rw [find?, byName, lookup_foldl_enter, List.lookup_nil, Option.or_none, get?, ← map_symbolAt_order,
    ← List.map_reverse, List.find?_map]
  rfl

theorem findEntity?_eq_entity? : c.findEntity? name = c.entity? name := by
  rw [entity?, ← find?_eq_get?, find?, findEntity?]
  cases c.byName.lookup name with
  | none => rfl
  | some slot => cases slot <;> rfl

end

/-- The catalog arranges the entities and the aliases. -/
structure Arranges (c : Catalog) (entities : List Entity) (aliases : List Alias) : Prop where
  /-- It keeps the entities. -/
  entities_eq : c.entities = entities
  /-- It keeps the aliases, but for their marks: an alias is resolved when one of the entities has the name
  that it refers to. -/
  aliases_eq : c.aliases = aliases.map fun a =>
    { a with resolved := decide (∃ e ∈ entities, e.name = a.referencedEntity) }
  /-- Its slots are listed once each. -/
  slots_once : c.order.Nodup ∧ ∀ slot, slot ∈ c.order
  /-- They lead to its symbols, in order. -/
  order_eq : c.order.map c.symbolAt = c.symbols
  /-- The order is that of the library's stable sort by offset, of the entities before the aliases. -/
  symbols_eq : c.symbols =
    (entities.map Symbol.entity ++ c.aliases.map Symbol.derived).mergeSort fun a b => a.offset ≤ b.offset
  /-- Symbols at one offset keep the order in which they were given. -/
  ties_eq : ∀ n, (c.symbols.filter fun s => s.offset = n) =
    (entities.map Symbol.entity ++ c.aliases.map Symbol.derived).filter fun s => s.offset = n

/-- The look-ups of a catalog find the last symbol of a name. -/
structure FindsLast (c : Catalog) : Prop where
  /-- The table of names leads to what is found among the symbols. -/
  find?_eq : ∀ name, c.find? name = c.get? name
  /-- So it does for entities. -/
  findEntity?_eq : ∀ name, c.findEntity? name = c.entity? name
  /-- A symbol is found when it has the name and none after it has. -/
  get?_iff : ∀ name s, c.get? name = some s ↔ s.name = name ∧
    ∃ before after, c.symbols = before ++ s :: after ∧ ∀ later ∈ after, later.name ≠ name
  /-- Nothing is found when no symbol has the name. -/
  none_iff : ∀ name, c.get? name = none ↔ ∀ s ∈ c.symbols, s.name ≠ name
  /-- An entity is found when the symbol that is found is this entity. -/
  entity?_iff : ∀ name e, c.entity? name = some e ↔ c.get? name = some (.entity e)

/-- The look-ups of a catalog find the only symbol of a name. -/
structure FindsOnly (c : Catalog) : Prop where
  /-- A symbol is found when it has the name. -/
  get?_iff : ∀ name s, c.get? name = some s ↔ s ∈ c.symbols ∧ s.name = name
  /-- An alias is resolved when what it refers to is found among the entities. -/
  resolved_iff : ∀ a ∈ c.aliases, a.resolved = true ↔ ∃ e, c.entity? a.referencedEntity = some e

theorem ofLists_arranges (entities : List Entity) (aliases : List Alias) :
    (ofLists entities aliases).Arranges entities aliases where
  entities_eq := rfl
  aliases_eq := by
    refine List.map_congr_left fun a _ => ?_
    congr 1
    rw [Bool.eq_iff_iff]
    simp
  slots_once := ⟨nodup_order _, mem_order _⟩
  order_eq := map_symbolAt_order _
  symbols_eq := symbols_eq_mergeSort _
  ties_eq := filter_symbols _

theorem findsLast (c : Catalog) : c.FindsLast where
  find?_eq _ := find?_eq_get?
  findEntity?_eq _ := findEntity?_eq_entity?
  get?_iff _ _ := get?_eq_some_iff
  none_iff _ := get?_eq_none_iff
  entity?_iff _ _ := entity?_eq_some_iff

/-- Whatever lists a catalog is made of, its symbols are their items in a stable order, a name leads to the
last symbol that has it, and to the only one if names are distinct. -/
theorem ofLists_order_and_lookups (entities : List Entity) (aliases : List Alias) :
    (ofLists entities aliases).Arranges entities aliases ∧ (ofLists entities aliases).FindsLast ∧
      ((entities.map Entity.name ++ aliases.map Alias.name).Nodup →
        (ofLists entities aliases).FindsOnly) := by
  refine ⟨ofLists_arranges entities aliases, findsLast _, fun hnames => ?_⟩
  have hown : ((ofLists entities aliases).symbols.map Symbol.name).Nodup := by
    rw [(map_name_symbols_perm _).nodup_iff]
    simpa using hnames
  refine ⟨fun name s => get?_eq_some_iff_of_nodup hown, fun a ha => ?_⟩
  rw [resolved_ofLists ha, exists_entity?_iff_of_nodup hown]

/-- Where a name is there twice, the later symbol hides the earlier one. -/
example :
    let c := ofLists [⟨"a", "t", "", none, 3⟩, ⟨"b", "t", "", none, 0⟩] [⟨"a", "b", .read, "", false, 3⟩]
    c.find? "a" = some (.derived ⟨"a", "b", .read, "", true, 3⟩) ∧ c.findEntity? "a" = none := by
  decide +kernel

/-- Two tables and two aliases, of which one ties with its table and the other has no table. -/
def tiedCatalog : Catalog :=
  ofLists [⟨"users", "users", "", none, 9⟩, ⟨"deals", "deals", "", none, 0⟩]
    [⟨"User", "users", .read, "", false, 9⟩, ⟨"Ghost", "ghosts", .write, "", true, 4⟩]

theorem tiedCatalog_order_and_lookups :
    (["users", "deals"] ++ ["User", "Ghost"]).Nodup ∧
      tiedCatalog.symbols.map Symbol.name = ["deals", "Ghost", "users", "User"] ∧
      tiedCatalog.aliases.map Alias.resolved = [true, false] ∧ tiedCatalog.FindsOnly := by
  have hnames : (["users", "deals"] ++ ["User", "Ghost"]).Nodup := by decide
  refine ⟨hnames, by decide +kernel, by decide +kernel, ?_⟩
  exact (ofLists_order_and_lookups _ _).2.2 hnames

end Catalog

end SchemaModules
