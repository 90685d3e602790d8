import SchemaModules.Proofs.Imports
import SchemaModules.Proofs.Search

/-!
# Proofs: cycles of imports

The modules whose references go round in a circle are found by the search on their positions, and of
circuits through the same modules one is kept. So there is a cycle to report exactly when the import
statements of some module lead back to it.
-/

namespace SchemaModules

open Relation

namespace Reference

variable {order : List String} {edges : List Edge}

theorem mem_links {i j : Nat} : (i, j) ∈ links order edges ↔
    ∃ e ∈ edges, order.idxOf? e.consumer = some i ∧ order.idxOf? e.owner = some j := by
  unfold links
  rw [List.mem_filterMap]
  constructor
  · rintro ⟨e, he, hlink⟩
    refine ⟨e, he, ?_⟩
    split at hlink
    · rename_i consumer owner hconsumer howner
      obtain ⟨rfl, rfl⟩ := Prod.mk.inj (Option.some.inj hlink)
      exact ⟨hconsumer, howner⟩
    · simp at hlink
  · rintro ⟨e, he, hconsumer, howner⟩
    exact ⟨e, he, by simp only [hconsumer, howner]⟩

/-- `consumer` refers to `owner`, and both are modules of `order`. -/
def RefersIn (order : List String) (edges : List Edge) (consumer owner : String) : Prop :=
  consumer ∈ order ∧ owner ∈ order ∧ Refers edges consumer owner

theorem idxOf?_eq_some_idxOf {name : String} (h : name ∈ order) :
    order.idxOf? name = some (order.idxOf name) := by
  cases hindex : order.idxOf? name with
  | none => exact absurd h (List.idxOf?_eq_none_iff.mp hindex)
  | some i => rw [List.idxOf_eq_getD_idxOf?, hindex, Option.getD_some]

/-- The links of the search lead where modules refer to each other. -/
theorem leads_of_refersIn {consumer owner : String} (h : RefersIn order edges consumer owner) :
    Leads (targets (links order edges) order.length) (order.idxOf consumer) (order.idxOf owner) := by
  obtain ⟨hconsumer, howner, symbol, hedge⟩ := h
  exact mem_targets.mpr ⟨List.idxOf_lt_length_of_mem howner, mem_links.mpr
    ⟨_, hedge, idxOf?_eq_some_idxOf hconsumer, idxOf?_eq_some_idxOf howner⟩⟩

theorem getElem?_of_idxOf?_eq_some {name : String} {i : Nat} (h : order.idxOf? name = some i) :
    order[i]? = some name := by
  obtain ⟨hlt, hname, -⟩ := List.idxOf?_eq_some_iff.mp h
  rw [List.getElem?_eq_getElem hlt, hname]

theorem refersIn_of_leads {i j : Nat}
    (h : Leads (targets (links order edges) order.length) i j) :
    RefersIn order edges (order[i]?.getD "") (order[j]?.getD "") := by
  obtain ⟨e, he, hconsumer, howner⟩ := mem_links.mp (mem_targets.mp h).2
  rw [getElem?_of_idxOf?_eq_some hconsumer, getElem?_of_idxOf?_eq_some howner]
  exact ⟨List.mem_of_getElem? (getElem?_of_idxOf?_eq_some hconsumer),
    List.mem_of_getElem? (getElem?_of_idxOf?_eq_some howner), e.symbol, he⟩

/-- A cycle is reported exactly when the references of some module lead back to it. -/
theorem cycles_ne_nil_iff :
    cycles order edges ≠ [] ↔ ∃ m, TransGen (RefersIn order edges) m m := by
  have hnext : ∀ x, ∀ t ∈ targets (links order edges) order.length x, t < order.length :=
    fun _ _ ht => (mem_targets.mp ht).1
  have hfound : cycles order edges ≠ [] ↔
      (search (targets (links order edges) order.length) order.length).found ≠ [] := by
    unfold cycles
    dsimp only
    generalize (search (targets (links order edges) order.length) order.length).found = found
    cases found <;> simp [distinctSets]
  rw [hfound]
  constructor
  · intro hne
    obtain ⟨c, hc⟩ := List.exists_mem_of_ne_nil _ hne
    obtain ⟨first, hcircuit⟩ := circuit_of_mem_found hnext hc
    have hcycle := hcircuit.transGen_first hcircuit.first_mem
    exact ⟨_, hcycle.lift (fun i => order[i]?.getD "") fun i j => refersIn_of_leads⟩
  · rintro ⟨m, hcycle⟩
    obtain ⟨n, hrefers, -⟩ := TransGen.head'_iff.mp hcycle
    have hcycle' := hcycle.lift (fun name => order.idxOf name) fun a b => leads_of_refersIn
    obtain ⟨c, hc, -⟩ := exists_found_of_transGen hnext
      (List.idxOf_lt_length_of_mem hrefers.1) hcycle'
    exact List.ne_nil_of_mem hc

end Reference

namespace Partition

open Reference

variable {source origin : String} {config : Config} {p : Partition}

theorem cycles_eq (h : ofSource source origin config = .ok p) :
    p.cycles = Reference.cycles config.moduleOrder p.edges := by
  have heq := (ofSource_eq_ok h).2
  rw [heq]
  rfl

/-- The module `m` has an import statement for the module `o`. -/
def Imports (p : Partition) (m o : Module) : Prop :=
  m ∈ p.modules ∧ o ∈ p.modules ∧ ∃ i ∈ p.importsOf m.name, i.owner = o.name

/-- The import statements of some module lead back to it. -/
def Cyclic (p : Partition) : Prop := ∃ m, TransGen p.Imports m m

theorem refersIn_of_imports (hvalid : config.Valid) (h : ofSource source origin config = .ok p)
    {m o : Module} (himports : p.Imports m o) :
    RefersIn config.moduleOrder p.edges m.name o.name := by
  obtain ⟨hm, ho, i, hi, howner⟩ := himports
  obtain ⟨name, hname⟩ := List.exists_mem_of_ne_nil _ (mem_importsOf.mp hi).2.2.2
  exact ⟨((mem_modules h).mp hm).1, ((mem_modules h).mp ho).1, name,
    (edge_iff_of_ofSource hvalid h hm _ _).mpr ⟨i, hi, howner, hname⟩⟩

/-- What refers to a module is a module that imports it. -/
theorem exists_imports_of_refersIn (hvalid : config.Valid)
    (h : ofSource source origin config = .ok p) {consumer owner : String}
    (hrefers : RefersIn config.moduleOrder p.edges consumer owner) :
    ∃ m o, p.Imports m o ∧ m.name = consumer ∧ o.name = owner := by
  obtain ⟨-, -, symbol, hedge⟩ := hrefers
  obtain ⟨m, hm, rfl⟩ : ∃ m ∈ p.modules, m.name = consumer := by
    rw [edges_eq h] at hedge
    obtain ⟨m, hm, he⟩ := List.mem_flatMap.mp hedge
    obtain ⟨s, -, hs⟩ := List.mem_filterMap.mp he
    exact ⟨m, hm, (congrArg Edge.consumer (referenceTo?_eq_some.mp hs).2.2.2).symm⟩
  obtain ⟨i, hi, rfl, -⟩ := (edge_iff_of_ofSource hvalid h hm _ _).mp hedge
  obtain ⟨o, ho, hname, -⟩ := provided_of_ofSource hvalid h hm hi
  exact ⟨m, o, ⟨hm, ho, i, hi, hname.symm⟩, rfl, hname⟩

/-- A partition has cycles exactly when the import statements of its modules have. -/
theorem cycles_ne_nil_iff_cyclic (hvalid : config.Valid)
    (h : ofSource source origin config = .ok p) : p.cycles ≠ [] ↔ p.Cyclic := by
  rw [cycles_eq h, cycles_ne_nil_iff]
  constructor
  · rintro ⟨name, hcycle⟩
    -- the module of each name is the only one with this name, so paths of names are paths of modules
    have hlift : ∀ a b, TransGen (RefersIn config.moduleOrder p.edges) a b →
        ∃ m o, TransGen p.Imports m o ∧ m ∈ p.modules ∧ o ∈ p.modules ∧ m.name = a ∧ o.name = b := by
      intro a b hab
      induction hab with
      | single hrefers =>
        obtain ⟨m, o, himports, hm, ho⟩ := exists_imports_of_refersIn hvalid h hrefers
        exact ⟨m, o, TransGen.single himports, himports.1, himports.2.1, hm, ho⟩
      | tail _ hrefers ih =>
        obtain ⟨m, o, hpath, hm, ho, hmname, honame⟩ := ih
        obtain ⟨o', q, himports, ho', hq⟩ := exists_imports_of_refersIn hvalid h hrefers
        obtain rfl := eq_of_name_eq h himports.1 ho (ho'.trans honame.symm)
        exact ⟨m, q, hpath.tail himports, hm, himports.2.1, hmname, hq⟩
    obtain ⟨m, o, hpath, hm, ho, hmname, honame⟩ := hlift name name hcycle
    obtain rfl := eq_of_name_eq h hm ho (hmname.trans honame.symm)
    exact ⟨m, hpath⟩
  · rintro ⟨m, hcycle⟩
    exact ⟨m.name, hcycle.lift Module.name fun a b => refersIn_of_imports hvalid h⟩

end Partition

end SchemaModules
