import Mathlib.Data.List.Chain
import Mathlib.Data.List.Nodup
import Mathlib.Data.List.Perm.Subperm
import Mathlib.Logic.Relation
import SchemaModules.Reference.Cycle

/-!
# Proofs: the search for cycles

A cycle that is found is a circuit: each of its nodes leads to the next, and the last to the first. For
the other direction take a node on a circuit, and of the nodes that it can reach and that can reach it
the one visited first. All of them are visited before the search leaves that node, and one of them leads
back to it while it is on the path, which closes a circuit among them.
-/

namespace SchemaModules.Reference

open Relation

variable {next : Nat → List Nat} {size : Nat}

/-- A link leads from `a` to `b`. -/
def Leads (next : Nat → List Nat) (a b : Nat) : Prop := b ∈ next a

/-- Links lead from `a` to `b` and back. -/
def Mutual (next : Nat → List Nat) (a b : Nat) : Prop :=
  ReflTransGen (Leads next) a b ∧ ReflTransGen (Leads next) b a

theorem Mutual.trans {a b c : Nat} (hab : Mutual next a b) (hbc : Mutual next b c) :
    Mutual next a c :=
  ⟨hab.1.trans hbc.1, hbc.2.trans hab.2⟩

/-- Nodes below `size` without repetition, each of which leads to the next. -/
structure Trail (next : Nat → List Nat) (size : Nat) (nodes : List Nat) : Prop where
  /-- Each node leads to the next. -/
  chain : nodes.IsChain (Leads next)
  /-- No node stands twice. -/
  nodup : nodes.Nodup
  /-- The nodes are nodes of the graph. -/
  lt : ∀ x ∈ nodes, x < size

/-- A trail from `first` to a node that leads back to it. -/
structure Circuit (next : Nat → List Nat) (size first : Nat) (nodes : List Nat) : Prop where
  /-- Its nodes are a trail. -/
  trail : Trail next size nodes
  /-- Where it starts. -/
  head : nodes.head? = some first
  /-- Where it ends. -/
  closed : ∃ last, nodes.getLast? = some last ∧ Leads next last first

namespace Circuit

variable {first : Nat} {nodes : List Nat}

/-- Links lead from every node of a circuit to its first node. -/
theorem transGen_first (h : Circuit next size first nodes) {x : Nat} (hx : x ∈ nodes) :
    TransGen (Leads next) x first := by
  obtain ⟨last, hlast, hback⟩ := h.closed
  obtain ⟨before, after, rfl⟩ := List.append_of_mem hx
  have hchain : (x :: after).IsChain (Leads next) := h.trail.chain.right_of_append
  have hend : (x :: after).getLast (List.cons_ne_nil _ _) = last := by
    rw [List.getLast?_append_of_ne_nil _ (List.cons_ne_nil _ _),
      List.getLast?_eq_some_getLast (List.cons_ne_nil _ _)] at hlast
    exact Option.some.inj hlast
  exact TransGen.tail' (List.relationReflTransGen_of_exists_isChain_cons after hchain hend) hback

/-- Links lead from the first node of a circuit to every node. -/
theorem reflTransGen_of_first (h : Circuit next size first nodes) {x : Nat} (hx : x ∈ nodes) :
    ReflTransGen (Leads next) first x := by
  obtain ⟨before, after, rfl⟩ := List.append_of_mem hx
  have hsplit : before ++ x :: after = (before ++ [x]) ++ after := by simp
  have hchain : (before ++ [x]).IsChain (Leads next) := by
    have hall := h.trail.chain
    rw [hsplit] at hall
    exact hall.left_of_append
  cases before with
  | nil =>
    obtain rfl : x = first := by simpa using h.head
    exact ReflTransGen.refl
  | cons y before =>
    obtain rfl : y = first := by simpa using h.head
    exact List.relationReflTransGen_of_exists_isChain_cons (before ++ [x]) hchain (by simp)

theorem first_mem (h : Circuit next size first nodes) : first ∈ nodes := List.mem_of_head? h.head

/-- Links lead from the first node of a circuit to every node and back. -/
theorem mutual_of_mem (h : Circuit next size first nodes) {x : Nat} (hx : x ∈ nodes) :
    Mutual next first x :=
  ⟨h.reflTransGen_of_first hx, (h.transGen_first hx).to_reflTransGen⟩

end Circuit

namespace Trail

variable {nodes : List Nat}

/-- A trail goes on over a link to a node that it does not have yet. -/
theorem append_singleton {last target : Nat} (h : Trail next size (nodes ++ [last]))
    (hlink : Leads next last target) (hnew : target ∉ nodes ++ [last]) (hlt : target < size) :
    Trail next size (nodes ++ [last] ++ [target]) where
  chain := by
    refine h.chain.append (List.isChain_singleton _) fun x hx y hy => ?_
    obtain rfl : last = x := by simpa using hx
    obtain rfl : target = y := by simpa using hy
    exact hlink
  nodup := List.nodup_append_comm.mp (List.nodup_cons.mpr ⟨hnew, h.nodup⟩)
  lt := by
    intro x hx
    rcases List.mem_append.mp hx with hx | hx
    · exact h.lt x hx
    · rwa [List.mem_singleton.mp hx]

/-- A link from the end of a trail to one of its nodes closes a circuit. -/
theorem circuit_drop {last target : Nat} (h : Trail next size (nodes ++ [last]))
    (hlink : Leads next last target) (hmem : target ∈ nodes ++ [last]) :
    Circuit next size target ((nodes ++ [last]).drop ((nodes ++ [last]).idxOf target)) where
  trail := {
    chain := h.chain.drop _
    nodup := h.nodup.sublist (List.drop_sublist _ _)
    lt := fun x hx => h.lt x (List.mem_of_mem_drop hx) }
  head := by
    rw [List.head?_drop, List.getElem?_eq_getElem (List.idxOf_lt_length_of_mem hmem),
      List.getElem_idxOf]
  closed := by
    refine ⟨last, ?_, hlink⟩
    rw [List.getLast?_drop, if_neg (Nat.not_le.mpr (List.idxOf_lt_length_of_mem hmem))]
    simp

theorem length_le (h : Trail next size nodes) : nodes.length ≤ size := by
  have hsub : nodes ⊆ List.range size := fun x hx => List.mem_range.mpr (h.lt x hx)
  simpa using (h.nodup.subperm hsub).length_le

end Trail

/-- What a search does with a target of the last node of the path `here`. -/
def scan (next : Nat → List Nat) (depth : Nat) (here : List Nat) (s : Search) (target : Nat) :
    Search :=
  if !s.visited.contains target then visit next depth here target s
  else if here.contains target then
    { s with found := s.found ++ [here.drop (here.idxOf target)] }
  else s

theorem visit_succ (next : Nat → List Nat) (depth : Nat) (path : List Nat) (node : Nat)
    (s : Search) : visit next (depth + 1) path node s =
      (next node).foldl (scan next depth (path ++ [node]))
        { s with visited := node :: s.visited } := rfl

/-- A target that has been looked at was visited, and a target on the path `here` has closed a
circuit. -/
def Handled (next : Nat → List Nat) (size : Nat) (here : List Nat) (s : Search) (target : Nat) :
    Prop :=
  target ∈ s.visited ∧ (target ∈ here → ∃ c ∈ s.found, Circuit next size target c)

/-- The targets of the nodes that were visited between `s` and `s'` have been looked at. -/
def Settles (next : Nat → List Nat) (size : Nat) (here : List Nat) (s s' : Search) : Prop :=
  ∀ x ∈ s'.visited, x ∈ s.visited ∨ ∀ t ∈ next x, Handled next size here s' t

/-- The nodes that are on a circuit with `v` have not been visited, or a circuit among them is found. -/
def Caught (next : Nat → List Nat) (size : Nat) (s : Search) (v : Nat) : Prop :=
  (∀ x ∈ s.visited, ¬ Mutual next v x) ∨
    ∃ c ∈ s.found, ∃ first, Circuit next size first c ∧ Mutual next v first

/-- What a search does between `s` and `s'` while the nodes of `here` are on its path. -/
structure Explores (next : Nat → List Nat) (size : Nat) (here : List Nat) (s s' : Search) : Prop where
  /-- What was visited stays visited. -/
  visited : s.visited ⊆ s'.visited
  /-- What was found stays found. -/
  found : s.found ⊆ s'.found
  /-- What is found is a circuit. -/
  circuit : ∀ c ∈ s'.found, c ∈ s.found ∨ ∃ first, Circuit next size first c
  /-- No target of a node visited meanwhile is left out. -/
  settles : Settles next size here s s'
  /-- A node on a circuit is not visited without a circuit being found. -/
  caught : ∀ v, TransGen (Leads next) v v → Caught next size s v → Caught next size s' v

theorem Handled.mono {here : List Nat} {s s' : Search} {target : Nat}
    (h : Handled next size here s target) (hvisited : s.visited ⊆ s'.visited)
    (hfound : s.found ⊆ s'.found) : Handled next size here s' target := by
  refine ⟨hvisited h.1, fun hmem => ?_⟩
  obtain ⟨c, hc, hcircuit⟩ := h.2 hmem
  exact ⟨c, hfound hc, hcircuit⟩

namespace Explores

variable {here : List Nat} {s s' s'' : Search}

theorem refl (s : Search) : Explores next size here s s where
  visited := fun _ hx => hx
  found := fun _ hc => hc
  circuit := fun _ hc => Or.inl hc
  settles := fun _ hx => Or.inl hx
  caught := fun _ _ hv => hv

theorem trans (h : Explores next size here s s') (h' : Explores next size here s' s'') :
    Explores next size here s s'' where
  visited := List.Subset.trans h.visited h'.visited
  found := List.Subset.trans h.found h'.found
  circuit := by
    intro c hc
    rcases h'.circuit c hc with hc | hc
    · exact h.circuit c hc
    · exact Or.inr hc
  settles := by
    intro x hx
    rcases h'.settles x hx with hx | hx
    · rcases h.settles x hx with hx | hx
      · exact Or.inl hx
      · exact Or.inr fun t ht => (hx t ht).mono h'.visited h'.found
    · exact Or.inr hx
  caught := fun v hcycle hv => h'.caught v hcycle (h.caught v hcycle hv)

/-- Fewer nodes on the path have fewer links back to them. -/
theorem of_subset {front : List Nat} (h : Explores next size here s s') (hsub : front ⊆ here) :
    Explores next size front s s' where
  visited := h.visited
  found := h.found
  circuit := h.circuit
  settles := by
    intro x hx
    rcases h.settles x hx with hx | hx
    · exact Or.inl hx
    · exact Or.inr fun t ht => ⟨(hx t ht).1, fun hmem => (hx t ht).2 (hsub hmem)⟩
  caught := h.caught

theorem add_circuit {first : Nat} {c : List Nat} (hc : Circuit next size first c) :
    Explores next size here s { s with found := s.found ++ [c] } where
  visited := fun _ hx => hx
  found := List.subset_append_left _ _
  circuit := by
    intro d hd
    rcases List.mem_append.mp hd with hd | hd
    · exact Or.inl hd
    · exact Or.inr ⟨first, by rwa [List.mem_singleton.mp hd]⟩
  settles := fun _ hx => Or.inl hx
  caught := by
    rintro v - (hv | ⟨d, hd, hcircuit⟩)
    · exact Or.inl hv
    · exact Or.inr ⟨d, List.mem_append_left _ hd, hcircuit⟩

end Explores

/-- What the search has looked at from `node` on holds all nodes on a circuit with `node`, when none of
them was visited before. -/
theorem mem_visited_of_mutual {here : List Nat} {node : Nat} {s s' : Search}
    (hfresh : ∀ x ∈ s.visited, ¬ Mutual next node x) (hnode : node ∈ s'.visited)
    (hsettles : Settles next size here s s')
    {x : Nat} (hto : ReflTransGen (Leads next) node x) (hback : ReflTransGen (Leads next) x node) :
    x ∈ s'.visited := by
  -- along the links from `node`: every node on the way can get back, so it was not visited before
  induction hto with
  | refl => exact hnode
  | tail hto hlink ih =>
    have hback' := ReflTransGen.head hlink hback
    rcases hsettles _ (ih hback') with hold | hnew
    · exact absurd ⟨hto, hback'⟩ (hfresh _ hold)
    · exact (hnew _ hlink).1

/-- A visit catches the nodes on a circuit with the node that is visited: one of them leads back to it
while it is on the path. -/
theorem exists_circuit_of_visit {here : List Nat} {node : Nat} {s s' : Search}
    (hcycle : TransGen (Leads next) node node) (hfresh : ∀ x ∈ s.visited, ¬ Mutual next node x)
    (hnode : node ∈ s'.visited) (hhere : node ∈ here)
    (hsettles : Settles next size here s s') :
    ∃ c ∈ s'.found, Circuit next size node c := by
  obtain ⟨x, hto, hlink⟩ := TransGen.tail'_iff.mp hcycle
  have hback := ReflTransGen.single hlink
  have hx := mem_visited_of_mutual hfresh hnode hsettles hto hback
  rcases hsettles x hx with hold | hnew
  · exact absurd ⟨hto, hback⟩ (hfresh x hold)
  · exact (hnew node hlink).2 hhere

/-- Visiting a node and then exploring from its targets is an exploration. -/
theorem Explores.visit {path : List Nat} {node : Nat} {s s' : Search}
    (h : Explores next size (path ++ [node]) { s with visited := node :: s.visited } s')
    (hall : ∀ t ∈ next node, Handled next size (path ++ [node]) s' t) :
    Explores next size (path ++ [node]) s s' := by
  have hsettles : Settles next size (path ++ [node]) s s' := by
    intro x hx
    rcases h.settles x hx with hx | hx
    · rcases List.mem_cons.mp hx with rfl | hx
      · exact Or.inr hall
      · exact Or.inl hx
    · exact Or.inr hx
  refine ⟨fun x hx => h.visited (List.mem_cons_of_mem _ hx), h.found, h.circuit, hsettles, ?_⟩
  rintro v hcycle (hfresh | hcaught)
  -- either `node` is the first one visited of those on a circuit with `v`, or it is none of them
  · by_cases hmutual : Mutual next v node
    · have hcycle' : TransGen (Leads next) node node :=
        (TransGen.trans_right hmutual.2 hcycle).trans_left hmutual.1
      obtain ⟨c, hc, hcircuit⟩ := exists_circuit_of_visit hcycle'
        (fun x hx hnode => hfresh x hx (hmutual.trans hnode)) (h.visited (List.mem_cons_self ..))
        (List.mem_append_right _ (List.mem_singleton_self node)) hsettles
      exact Or.inr ⟨c, hc, node, hcircuit, hmutual⟩
    · exact h.caught v hcycle (Or.inl (List.forall_mem_cons.mpr ⟨hmutual, hfresh⟩))
  · exact h.caught v hcycle (Or.inr hcaught)

/-- Visits that go on from the path `here` by one node explore the graph from there. -/
def Visits (next : Nat → List Nat) (size depth : Nat) (here : List Nat) : Prop :=
  ∀ (target : Nat) (s : Search), Trail next size (here ++ [target]) → here ⊆ s.visited →
    Explores next size (here ++ [target]) s (visit next depth here target s) ∧
      target ∈ (visit next depth here target s).visited

section Scan

variable {depth : Nat} {path : List Nat} {node : Nat}

/-- A target of the last node of the path is visited, or closes a circuit, or was left before. -/
theorem explores_scan (htrail : Trail next size (path ++ [node]))
    (hvisits : Visits next size depth (path ++ [node])) {target : Nat}
    (hlink : Leads next node target) (hlt : target < size) {s : Search}
    (hpath : path ++ [node] ⊆ s.visited) :
    Explores next size (path ++ [node]) s (scan next depth (path ++ [node]) s target) ∧
      Handled next size (path ++ [node]) (scan next depth (path ++ [node]) s target) target := by
  unfold scan
  by_cases hvisited : target ∈ s.visited
  · rw [if_neg (by simpa using hvisited)]
    by_cases hhere : target ∈ path ++ [node]
    · have hcircuit := htrail.circuit_drop hlink hhere
      rw [if_pos (List.contains_iff_mem.mpr hhere)]
      exact ⟨Explores.add_circuit hcircuit, hvisited, fun _ =>
        ⟨_, List.mem_append_right _ (List.mem_singleton_self _), hcircuit⟩⟩
    · rw [if_neg (by simpa using hhere)]
      exact ⟨Explores.refl s, hvisited, fun hmem => absurd hmem hhere⟩
  · have hnew : target ∉ path ++ [node] := fun hmem => hvisited (hpath hmem)
    rw [if_pos (by simpa using hvisited)]
    obtain ⟨hexplores, hmem⟩ :=
      hvisits target s (htrail.append_singleton hlink hnew hlt) hpath
    exact ⟨hexplores.of_subset (List.subset_append_left _ _), hmem, fun h => absurd h hnew⟩

theorem explores_foldl_scan (htrail : Trail next size (path ++ [node]))
    (hvisits : Visits next size depth (path ++ [node])) (targets : List Nat)
    (hlinks : ∀ t ∈ targets, Leads next node t ∧ t < size) (s : Search)
    (hpath : path ++ [node] ⊆ s.visited) :
    Explores next size (path ++ [node]) s (targets.foldl (scan next depth (path ++ [node])) s) ∧
      ∀ t ∈ targets, Handled next size (path ++ [node])
        (targets.foldl (scan next depth (path ++ [node])) s) t := by
  induction targets generalizing s with
  | nil => exact ⟨Explores.refl s, by simp⟩
  | cons target targets ih =>
    obtain ⟨⟨hlink, hlt⟩, hlinks⟩ := List.forall_mem_cons.mp hlinks
    obtain ⟨hfirst, hhandled⟩ := explores_scan htrail hvisits hlink hlt hpath
    obtain ⟨hrest, hall⟩ := ih hlinks (scan next depth (path ++ [node]) s target)
      (List.Subset.trans hpath hfirst.visited)
    rw [List.foldl_cons]
    -- what has been looked at stays so while the other targets are
    exact ⟨hfirst.trans hrest,
      List.forall_mem_cons.mpr ⟨hhandled.mono hrest.visited hrest.found, hall⟩⟩

end Scan

/-- A visit explores the graph from the node on, if the depth allows for a path through all nodes. -/
theorem explores_visit (hnext : ∀ x, ∀ t ∈ next x, t < size) (depth : Nat) (path : List Nat)
    (hdepth : size ≤ depth + path.length) : Visits next size depth path := by
  induction depth generalizing path with
  | zero =>
    -- a path through all nodes has no room for another one
    intro node s htrail hpath
    have hlen := htrail.length_le
    rw [List.length_append, List.length_singleton] at hlen
    omega
  | succ depth ih =>
    intro node s htrail hpath
    have hhere : path ++ [node] ⊆ node :: s.visited := by
      intro x hx
      rcases List.mem_append.mp hx with hx | hx
      · exact List.mem_cons_of_mem _ (hpath hx)
      · rw [List.mem_singleton.mp hx]
        exact List.mem_cons_self ..
    have hvisits : Visits next size depth (path ++ [node]) := by
      apply ih
      rw [List.length_append, List.length_singleton]
      omega
    obtain ⟨hexplores, hall⟩ := explores_foldl_scan htrail hvisits (next node)
      (fun t ht => ⟨ht, hnext node t ht⟩) { s with visited := node :: s.visited } hhere
    rw [visit_succ]
    exact ⟨hexplores.visit hall, hexplores.visited (List.mem_cons_self ..)⟩

/-- What a search does with a node of the graph. -/
def enter (next : Nat → List Nat) (size : Nat) (s : Search) (node : Nat) : Search :=
  if s.visited.contains node then s else visit next size [] node s

theorem search_eq (next : Nat → List Nat) (size : Nat) :
    search next size = (List.range size).foldl (enter next size) {} := rfl

theorem explores_foldl_enter (hnext : ∀ x, ∀ t ∈ next x, t < size) (nodes : List Nat)
    (hnodes : ∀ x ∈ nodes, x < size) (s : Search) :
    Explores next size [] s (nodes.foldl (enter next size) s) ∧
      ∀ x ∈ nodes, x ∈ (nodes.foldl (enter next size) s).visited := by
  induction nodes generalizing s with
  | nil => exact ⟨Explores.refl s, by simp⟩
  | cons node nodes ih =>
    obtain ⟨hlt, hnodes⟩ := List.forall_mem_cons.mp hnodes
    have hfirst : Explores next size [] s (enter next size s node) ∧
        node ∈ (enter next size s node).visited := by
      unfold enter
      by_cases hvisited : node ∈ s.visited
      · rw [if_pos (List.contains_iff_mem.mpr hvisited)]
        exact ⟨Explores.refl s, hvisited⟩
      · rw [if_neg (by simpa using hvisited)]
        have htrail : Trail next size ([] ++ [node]) :=
          ⟨List.isChain_singleton _, List.nodup_singleton _, by simpa using hlt⟩
        obtain ⟨hexplores, hnode⟩ := explores_visit hnext size [] (Nat.le_refl _) node s htrail
          (List.nil_subset _)
        exact ⟨hexplores.of_subset (List.nil_subset _), hnode⟩
    obtain ⟨hrest, hmem⟩ := ih hnodes (enter next size s node)
    rw [List.foldl_cons]
    exact ⟨hfirst.1.trans hrest, List.forall_mem_cons.mpr ⟨hrest.visited hfirst.2, hmem⟩⟩

/-- A search explores the whole graph. -/
theorem explores_search (hnext : ∀ x, ∀ t ∈ next x, t < size) :
    Explores next size [] {} (search next size) ∧ ∀ x < size, x ∈ (search next size).visited := by
  rw [search_eq]
  obtain ⟨hexplores, hmem⟩ := explores_foldl_enter hnext (List.range size)
    (fun x hx => List.mem_range.mp hx) {}
  exact ⟨hexplores, fun x hx => hmem x (List.mem_range.mpr hx)⟩

/-- Every cycle that a search finds is a circuit. -/
theorem circuit_of_mem_found (hnext : ∀ x, ∀ t ∈ next x, t < size) {c : List Nat}
    (hc : c ∈ (search next size).found) : ∃ first, Circuit next size first c := by
  rcases (explores_search hnext).1.circuit c hc with hc | hc
  · simp at hc
  · exact hc

/-- For every node on a circuit the search finds a circuit among the nodes that it can reach and that
can reach it. -/
theorem exists_found_of_transGen (hnext : ∀ x, ∀ t ∈ next x, t < size) {v : Nat} (hv : v < size)
    (hcycle : TransGen (Leads next) v v) :
    ∃ c ∈ (search next size).found, ∀ x ∈ c, Mutual next v x := by
  obtain ⟨hexplores, hvisited⟩ := explores_search hnext
  rcases hexplores.caught v hcycle (Or.inl (by simp)) with hnone | ⟨c, hc, first, hcircuit, hfirst⟩
  · exact absurd ⟨ReflTransGen.refl, ReflTransGen.refl⟩ (hnone v (hvisited v hv))
  · exact ⟨c, hc, fun x hx => hfirst.trans (hcircuit.mutual_of_mem hx)⟩

end SchemaModules.Reference
