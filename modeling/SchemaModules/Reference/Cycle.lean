import SchemaModules.Reference.Edge

/-!
# Import cycles

The modules and their references form a graph, whose nodes are the positions in module order. It is
searched depth first, each node once: nodes in order, and from a node its targets in order. A target
that is on the path to the node closes a cycle, which is the path from the target on. Of cycles through
the same modules the first is kept.
-/

namespace SchemaModules.Reference

/-- The references as pairs of positions. A name stands for the first position that has it; a reference
with a name that is not in `order` is left out. -/
def links (order : List String) (edges : List Edge) : List (Nat × Nat) :=
  edges.filterMap fun e =>
    match order.idxOf? e.consumer, order.idxOf? e.owner with
    | some consumer, some owner => some (consumer, owner)
    | _, _ => none

/-- The positions below `size` that links lead to from position `node`, in order. -/
def targets (links : List (Nat × Nat)) (size node : Nat) : List Nat :=
  let own := links.filter fun link => link.1 = node
  (List.range size).filter fun target => own.any fun link => link.2 = target

/-- A position is a target when a link leads to it. -/
theorem mem_targets {links : List (Nat × Nat)} {size node target : Nat} :
    target ∈ targets links size node ↔ target < size ∧ (node, target) ∈ links := by
  simp only [targets, List.mem_filter, List.mem_range, List.any_eq_true, decide_eq_true_eq]
  constructor
  · rintro ⟨hlt, ⟨a, b⟩, ⟨hmem, rfl⟩, rfl⟩
    exact ⟨hlt, hmem⟩
  · rintro ⟨hlt, hmem⟩
    exact ⟨hlt, (node, target), ⟨hmem, rfl⟩, rfl⟩

/-- What a search has seen so far. -/
structure Search where
  /-- The nodes visited, the last one first. -/
  visited : List Nat := []
  /-- The cycles found, in order. -/
  found : List (List Nat) := []
  deriving Repr, DecidableEq

/-- Visits `node`, to which `path` leads, and all that can be reached from it over nodes not visited
yet. The path grows by a node at each level, so `depth` need not be more than the number of nodes. -/
def visit (next : Nat → List Nat) : Nat → List Nat → Nat → Search → Search
  | 0, _, _, s => s
  | depth + 1, path, node, s =>
    let here := path ++ [node]
    (next node).foldl
      (fun s target =>
        if !s.visited.contains target then visit next depth here target s
        else if here.contains target then
          { s with found := s.found ++ [here.drop (here.idxOf target)] }
        else s)
      { s with visited := node :: s.visited }

/-- The search of a graph with `size` nodes. -/
def search (next : Nat → List Nat) (size : Nat) : Search :=
  (List.range size).foldl
    (fun s node => if s.visited.contains node then s else visit next size [] node s) {}

/-- Whether two lists without repetitions have the same members. -/
def sameMembers (xs ys : List Nat) : Bool :=
  xs.length = ys.length && xs.all fun x => ys.contains x

/-- The first of all lists with the same members. -/
def distinctSets : List (List Nat) → List (List Nat)
  | [] => []
  | c :: rest => c :: (distinctSets rest).filter fun d => !sameMembers c d

/-- The import cycles among the modules of `order`, each as the list of its modules. -/
def cycles (order : List String) (edges : List Edge) : List (List String) :=
  let next := targets (links order edges) order.length
  (distinctSets (search next order.length).found).map fun c => c.filterMap fun i => order[i]?

end SchemaModules.Reference
