import SchemaModules.Proofs.Cycles

/-!
# Proofs: the cycles that are reported

A circuit of positions is a cycle of the modules at these positions. Of all circuits through the same
modules one is reported. So every component of the import graph in which some module leads back to itself
holds all modules of a reported cycle.
-/

namespace SchemaModules.Reference

open Relation

variable {order : List String} {edges : List Edge}

/-! ## Circuits through the same positions -/

theorem sameMembers_iff {xs ys : List Nat} (hxs : xs.Nodup) (hys : ys.Nodup) :
    sameMembers xs ys = true ↔ ∀ x, x ∈ xs ↔ x ∈ ys := by
  unfold sameMembers
  rw [Bool.and_eq_true, decide_eq_true_eq, List.all_eq_true]
  constructor
  · rintro ⟨hlength, hall⟩
    have hsub : xs ⊆ ys := fun x hx => List.contains_iff_mem.mp (hall x hx)
    have hperm : xs.Perm ys := (hxs.subperm hsub).perm_of_length_le (Nat.le_of_eq hlength.symm)
    exact fun x => hperm.mem_iff
  · intro hsame
    have hperm : xs.Perm ys := (List.perm_ext_iff_of_nodup hxs hys).mpr hsame
    exact ⟨hperm.length_eq, fun x hx => List.contains_iff_mem.mpr ((hsame x).mp hx)⟩

theorem distinctSets_subset (cs : List (List Nat)) : distinctSets cs ⊆ cs := by
  induction cs with
  | nil => exact List.Subset.refl []
  | cons c cs ih =>
    intro d hd
    rcases List.mem_cons.mp hd with rfl | hd
    · exact List.mem_cons_self ..
    · exact List.mem_cons_of_mem _ (ih (List.mem_of_mem_filter hd))

theorem pairwise_distinctSets (cs : List (List Nat)) :
    (distinctSets cs).Pairwise fun c d => sameMembers c d = false := by
  induction cs with
  | nil => exact List.Pairwise.nil
  | cons c cs ih =>
    refine List.pairwise_cons.mpr ⟨fun d hd => ?_, ih.sublist List.filter_sublist⟩
    have hkept := (List.mem_filter.mp hd).2
    simpa using hkept

/-- A list that is left out has the members of one that is kept. -/
theorem exists_mem_distinctSets {cs : List (List Nat)} (hcs : ∀ c ∈ cs, c.Nodup) {c : List Nat}
    (hc : c ∈ cs) : ∃ d ∈ distinctSets cs, ∀ x, x ∈ d ↔ x ∈ c := by
  induction cs with
  | nil => simp at hc
  | cons front cs ih =>
    obtain ⟨hfront, hcs⟩ := List.forall_mem_cons.mp hcs
    rcases List.mem_cons.mp hc with rfl | hc
    · exact ⟨c, List.mem_cons_self .., fun x => Iff.rfl⟩
    · obtain ⟨d, hd, hsame⟩ := ih hcs hc
      by_cases hdropped : sameMembers front d = true
      · have hmem := (sameMembers_iff hfront (hcs d (distinctSets_subset cs hd))).mp hdropped
        exact ⟨front, List.mem_cons_self .., fun x => (hmem x).trans (hsame x)⟩
      · have hkept : d ∈ (distinctSets cs).filter fun d => !sameMembers front d :=
          List.mem_filter.mpr ⟨hd, by simpa using hdropped⟩
        exact ⟨d, List.mem_cons_of_mem _ hkept, hsame⟩

/-! ## From positions to modules -/

/-- The targets of the search among the modules. -/
abbrev linked (order : List String) (edges : List Edge) : Nat → List Nat :=
  targets (links order edges) order.length

theorem linked_lt : ∀ x, ∀ t ∈ linked order edges x, t < order.length :=
  fun _ _ ht => (mem_targets.mp ht).1

/-- The module at a position. -/
def nameAt (order : List String) (i : Nat) : String := order[i]?.getD ""

theorem nameAt_eq_getElem {i : Nat} (h : i < order.length) : nameAt order i = order[i] := by
  rw [nameAt, List.getElem?_eq_getElem h, Option.getD_some]

theorem nameAt_idxOf {m : String} (h : m ∈ order) : nameAt order (order.idxOf m) = m := by
  rw [nameAt_eq_getElem (List.idxOf_lt_length_of_mem h), List.getElem_idxOf]

theorem eq_of_nameAt_eq (horder : order.Nodup) {i j : Nat} (hi : i < order.length)
    (hj : j < order.length) (h : nameAt order i = nameAt order j) : i = j := by
  rw [nameAt_eq_getElem hi, nameAt_eq_getElem hj] at h
  exact horder.getElem_inj_iff.mp h

theorem filterMap_eq_map_nameAt {c : List Nat} (h : ∀ i ∈ c, i < order.length) :
    (c.filterMap fun i => order[i]?) = c.map (nameAt order) := by
  induction c with
  | nil => rfl
  | cons i c ih =>
    obtain ⟨hi, hc⟩ := List.forall_mem_cons.mp h
    rw [List.filterMap_cons_some (List.getElem?_eq_getElem hi), List.map_cons, ih hc,
      nameAt_eq_getElem hi]

/-- Each module of a list imports the next, and the last imports `first`. -/
theorem leadsTo_iff {first : String} {modules : List String} : LeadsTo edges first modules ↔
    modules.IsChain (Refers edges) ∧
      ∃ last, modules.getLast? = some last ∧ Refers edges last first := by
  induction modules with
  | nil => simp [LeadsTo]
  | cons m modules ih =>
    cases modules with
    | nil => simp [LeadsTo]
    | cons n modules =>
      rw [LeadsTo, ih, List.isChain_cons_cons, List.getLast?_cons_cons, and_assoc]

theorem isCycle_of_circuit (horder : order.Nodup) {first : Nat} {c : List Nat}
    (h : Circuit (linked order edges) order.length first c) :
    IsCycle order edges (c.map (nameAt order)) := by
  have hlinks : ∀ {i j}, Leads (linked order edges) i j →
      Refers edges (nameAt order i) (nameAt order j) := fun hlink => (refersIn_of_leads hlink).2.2
  refine ⟨?_, ?_, nameAt order first, ?_, leadsTo_iff.mpr ⟨?_, ?_⟩⟩
  · exact h.trail.nodup.map_on fun i hi j hj heq =>
      eq_of_nameAt_eq horder (h.trail.lt i hi) (h.trail.lt j hj) heq
  · intro m hm
    obtain ⟨i, hi, rfl⟩ := List.mem_map.mp hm
    rw [nameAt_eq_getElem (h.trail.lt i hi)]
    exact List.getElem_mem _
  · rw [List.head?_map, h.head]
    rfl
  · exact (List.isChain_map _).mpr (h.trail.chain.imp fun _ _ => hlinks)
  · obtain ⟨last, hlast, hback⟩ := h.closed
    exact ⟨nameAt order last, by rw [List.getLast?_map, hlast]; rfl, hlinks hback⟩

/-- The positions of the modules of a cycle are a circuit. -/
theorem exists_circuit_of_isCycle {modules : List String} (h : IsCycle order edges modules) :
    ∃ first ∈ modules, Circuit (linked order edges) order.length (order.idxOf first)
      (modules.map fun m => order.idxOf m) := by
  obtain ⟨hnodup, hmem, first, hfirst, hleads⟩ := h
  obtain ⟨hchain, last, hlast, hback⟩ := leadsTo_iff.mp hleads
  have hfirst' : first ∈ modules := List.mem_of_head? hfirst
  refine ⟨first, hfirst', ⟨?_, ?_, ?_⟩, ?_, ?_⟩
  · refine (List.isChain_map _).mpr (hchain.imp_of_mem_imp fun a b ha hb hrefers => ?_)
    exact leads_of_refersIn ⟨hmem a ha, hmem b hb, hrefers⟩
  · exact hnodup.map_on fun a ha b _ heq => (List.idxOf_inj (hmem a ha)).mp heq
  · intro i hi
    obtain ⟨m, hm, rfl⟩ := List.mem_map.mp hi
    exact List.idxOf_lt_length_of_mem (hmem m hm)
  · rw [List.head?_map, Option.mem_def.mp hfirst]
    rfl
  · refine ⟨order.idxOf last, by rw [List.getLast?_map, hlast]; rfl, ?_⟩
    exact leads_of_refersIn ⟨hmem last (List.mem_of_getLast? hlast), hmem first hfirst', hback⟩

/-! ## Reported cycles -/

/-- What the search among the modules has found. -/
abbrev foundAmong (order : List String) (edges : List Edge) : List (List Nat) :=
  (search (linked order edges) order.length).found

theorem circuit_of_mem_foundAmong {c : List Nat} (hc : c ∈ foundAmong order edges) :
    ∃ first, Circuit (linked order edges) order.length first c :=
  circuit_of_mem_found linked_lt hc

/-- The reported cycles are the modules of the circuits that are found, one for each set. -/
theorem cycles_eq_map : cycles order edges =
    (distinctSets (foundAmong order edges)).map fun c => c.map (nameAt order) := by
  unfold cycles
  refine List.map_congr_left fun c hc => filterMap_eq_map_nameAt fun i hi => ?_
  obtain ⟨first, hcircuit⟩ := circuit_of_mem_foundAmong (distinctSets_subset _ hc)
  exact hcircuit.trail.lt i hi

theorem isCycle_of_mem_cycles (horder : order.Nodup) {c : List String}
    (hc : c ∈ cycles order edges) : IsCycle order edges c := by
  rw [cycles_eq_map] at hc
  obtain ⟨d, hd, rfl⟩ := List.mem_map.mp hc
  obtain ⟨first, hcircuit⟩ := circuit_of_mem_foundAmong (distinctSets_subset _ hd)
  exact isCycle_of_circuit horder hcircuit

/-- Two lists have the same modules. -/
def SameModules (c d : List String) : Prop := ∀ m, m ∈ c ↔ m ∈ d

theorem SameModules.symm {c d : List String} (h : SameModules c d) : SameModules d c :=
  fun m => (h m).symm

theorem SameModules.trans {c d e : List String} (h : SameModules c d) (h' : SameModules d e) :
    SameModules c e := fun m => (h m).trans (h' m)

/-- Positions of the same modules are the same positions. -/
theorem mem_iff_of_sameModules (horder : order.Nodup) {c d : List Nat}
    (hc : ∀ i ∈ c, i < order.length) (hd : ∀ i ∈ d, i < order.length)
    (h : SameModules (c.map (nameAt order)) (d.map (nameAt order))) (i : Nat) : i ∈ c ↔ i ∈ d := by
  have hmem : ∀ {c d : List Nat}, (∀ i ∈ c, i < order.length) → (∀ i ∈ d, i < order.length) →
      SameModules (c.map (nameAt order)) (d.map (nameAt order)) → i ∈ c → i ∈ d := by
    intro c d hc hd h hi
    obtain ⟨j, hj, hname⟩ := List.mem_map.mp ((h _).mp (List.mem_map_of_mem hi))
    rwa [← eq_of_nameAt_eq horder (hd j hj) (hc i hi) hname]
  exact ⟨hmem hc hd h, hmem hd hc h.symm⟩

theorem pairwise_cycles (horder : order.Nodup) :
    (cycles order edges).Pairwise fun c d => ¬ SameModules c d := by
  rw [cycles_eq_map, List.pairwise_map]
  refine (pairwise_distinctSets _).imp_of_mem fun {c d} hc hd hdistinct hsame => ?_
  obtain ⟨_, hcircuit⟩ := circuit_of_mem_foundAmong (distinctSets_subset _ hc)
  obtain ⟨_, hcircuit'⟩ := circuit_of_mem_foundAmong (distinctSets_subset _ hd)
  have hmem := mem_iff_of_sameModules horder hcircuit.trail.lt hcircuit'.trail.lt hsame
  rw [(sameMembers_iff hcircuit.trail.nodup hcircuit'.trail.nodup).mpr hmem] at hdistinct
  exact Bool.noConfusion hdistinct

/-- Each of two modules of `order` leads to the other over references. -/
def Connected (order : List String) (edges : List Edge) (m n : String) : Prop :=
  ReflTransGen (RefersIn order edges) m n ∧ ReflTransGen (RefersIn order edges) n m

/-- Positions that lead to each other are those of connected modules. -/
theorem connected_of_mutual {i j : Nat} (h : Mutual (linked order edges) i j) :
    Connected order edges (nameAt order i) (nameAt order j) :=
  ⟨h.1.lift (nameAt order) fun _ _ => refersIn_of_leads,
    h.2.lift (nameAt order) fun _ _ => refersIn_of_leads⟩

/-- A module that leads back to itself has a reported cycle in its component. -/
theorem exists_mem_cycles_of_transGen {m : String} (h : TransGen (RefersIn order edges) m m) :
    ∃ c ∈ cycles order edges, ∀ n ∈ c, Connected order edges m n := by
  obtain ⟨_, ⟨hm, -⟩, -⟩ := TransGen.head'_iff.mp h
  have hlifted := h.lift (fun name => order.idxOf name) fun a b => leads_of_refersIn
  obtain ⟨c, hc, hmutual⟩ :=
    exists_found_of_transGen linked_lt (List.idxOf_lt_length_of_mem hm) hlifted
  have hnodup : ∀ c ∈ foundAmong order edges, c.Nodup := by
    intro c hc
    obtain ⟨_, hcircuit⟩ := circuit_of_mem_foundAmong hc
    exact hcircuit.trail.nodup
  obtain ⟨d, hd, hsame⟩ := exists_mem_distinctSets hnodup hc
  refine ⟨d.map (nameAt order), ?_, fun n hn => ?_⟩
  · rw [cycles_eq_map]
    exact List.mem_map_of_mem hd
  · obtain ⟨i, hi, rfl⟩ := List.mem_map.mp hn
    have hconnected := connected_of_mutual (hmutual i ((hsame i).mp hi))
    rwa [nameAt_idxOf hm] at hconnected

/-- What the reported cycles say about the import graph of the modules of `order`. -/
structure ReportsCycles (order : List String) (edges : List Edge) (reported : List (List String)) :
    Prop where
  /-- Every reported list is a cycle. -/
  isCycle : ∀ c ∈ reported, IsCycle order edges c
  /-- No two reported lists have the same modules. -/
  distinct : reported.Pairwise fun c d => ¬ SameModules c d
  /-- The component of a module that leads back to itself holds all modules of a reported list. -/
  component : ∀ m, TransGen (RefersIn order edges) m m →
    ∃ c ∈ reported, ∀ n ∈ c, Connected order edges m n
  /-- Nothing is reported exactly when no module leads back to itself. -/
  eq_nil_iff : reported = [] ↔ ∀ m, ¬ TransGen (RefersIn order edges) m m

/-- The reported cycles are cycles, differ in their modules, and leave out no component. -/
theorem cycles_report_components (horder : order.Nodup) :
    ReportsCycles order edges (cycles order edges) where
  isCycle := fun _ hc => isCycle_of_mem_cycles horder hc
  distinct := pairwise_cycles horder
  component := fun _ hm => exists_mem_cycles_of_transGen hm
  eq_nil_iff := by
    have hiff : cycles order edges ≠ [] ↔ ∃ m, TransGen (RefersIn order edges) m m :=
      cycles_ne_nil_iff
    rw [← not_exists, ← hiff, not_not]

/-- Four modules, of which three import each other in a circle and one imports itself. -/
def circledOrder : List String := ["core", "users", "deals", "audit"]

/-- The references among these modules, one of them to a module that is not in order. -/
def circledEdges : List Edge :=
  [⟨"core", "users", "a"⟩, ⟨"users", "deals", "b"⟩, ⟨"deals", "core", "c"⟩, ⟨"users", "core", "d"⟩,
    ⟨"audit", "audit", "e"⟩, ⟨"audit", "core", "f"⟩, ⟨"core", "other", "g"⟩]

theorem circledOrder_cycles_report : circledOrder.Nodup ∧
    cycles circledOrder circledEdges = [["core", "users"], ["core", "users", "deals"], ["audit"]] ∧
    ReportsCycles circledOrder circledEdges (cycles circledOrder circledEdges) := by
  have hnodup : circledOrder.Nodup := by decide
  exact ⟨hnodup, by decide +kernel, cycles_report_components hnodup⟩

end SchemaModules.Reference
