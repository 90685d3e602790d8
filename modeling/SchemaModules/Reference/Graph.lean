import SchemaModules.Reference.Import

/-!
# The import graph

A module imports another when a symbol of the other is among its references. A cycle is a list of
modules without repetition in which each imports the next, and the last imports the first.
-/

namespace SchemaModules.Reference

/-- `consumer` refers to a symbol of `owner`. -/
def Refers (edges : List Edge) (consumer owner : String) : Prop :=
  ∃ symbol, ⟨consumer, owner, symbol⟩ ∈ edges

/-- Each module of a list imports the next, and the last imports `first`. -/
def LeadsTo (edges : List Edge) (first : String) : List String → Prop
  | [] => False
  | [m] => Refers edges m first
  | m :: n :: rest => Refers edges m n ∧ LeadsTo edges first (n :: rest)

/-- A list of modules of `order` that import each other in a circle. -/
def IsCycle (order : List String) (edges : List Edge) (modules : List String) : Prop :=
  modules.Nodup ∧ (∀ m ∈ modules, m ∈ order) ∧ ∃ first ∈ modules.head?, LeadsTo edges first modules

/-- A module refers to what one of its import statements names, and to nothing else. -/
theorem mem_neededFrom {edges : List Edge} {consumer owner symbol : String} :
    symbol ∈ neededFrom consumer owner edges ↔ ⟨consumer, owner, symbol⟩ ∈ edges := by
  simp only [neededFrom, List.mem_eraseDups, List.mem_map, List.mem_filter, Bool.and_eq_true,
    decide_eq_true_eq]
  constructor
  · rintro ⟨e, ⟨he, rfl, rfl⟩, rfl⟩
    exact he
  · intro h
    exact ⟨⟨consumer, owner, symbol⟩, ⟨h, rfl, rfl⟩, rfl⟩

end SchemaModules.Reference
