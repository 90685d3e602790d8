import SchemaModules.Proofs.Components

/-!
# Proofs: cycles that share modules

The search visits every module once, so of cycles that share modules some may not be reported, and then a
module may lie on a cycle and in no report. A cycle that shares no module with a cycle through other modules is
reported exactly once: its modules are a whole component, since from a module outside that leads to it and
back there would be such a cycle.
-/

namespace SchemaModules.Reference

open Relation

variable {order : List String} {edges : List Edge} {modules : List String}

/-! ## Cycles through a reference -/

/-- Where one thing leads to another it does so without coming to anything twice. -/
theorem exists_simple_chain {r : String → String → Prop} {a b : String} (h : ReflTransGen r a b) :
    ∃ path : List String, path.IsChain r ∧ path.Nodup ∧ path.head? = some a ∧
      path.getLast? = some b ∧ ∀ x ∈ path, ReflTransGen r x b := by
  induction h using ReflTransGen.head_induction_on with
  | refl =>
    refine ⟨[b], List.isChain_singleton b, List.nodup_singleton b, rfl, rfl, fun x hx => ?_⟩
    rw [List.mem_singleton.mp hx]
  | @head a c hlink hrest ih =>
    obtain ⟨path, hchain, hnodup, hhead, hlast, hreach⟩ := ih
    by_cases ha : a ∈ path
    · -- the path comes to `a` again, so what stands before is left out
      obtain ⟨before, after, rfl⟩ := List.append_of_mem ha
      refine ⟨a :: after, hchain.right_of_append, (List.nodup_append.mp hnodup).2.1, rfl, ?_,
        fun x hx => hreach x (List.mem_append_right _ hx)⟩
      rwa [List.getLast?_append_of_ne_nil _ (List.cons_ne_nil _ _)] at hlast
    · obtain ⟨rest, rfl⟩ := List.head?_eq_some_iff.mp hhead
      refine ⟨a :: c :: rest, List.isChain_cons_cons.mpr ⟨hlink, hchain⟩,
        List.nodup_cons.mpr ⟨ha, hnodup⟩, rfl, by rwa [List.getLast?_cons_cons], ?_⟩
      exact List.forall_mem_cons.mpr ⟨ReflTransGen.head hlink hrest, hreach⟩

/-- A reference to a module that leads back is part of a cycle. -/
theorem exists_isCycle_of_refersIn {m n : String} (hlink : RefersIn order edges m n)
    (hback : ReflTransGen (RefersIn order edges) n m) :
    ∃ c, IsCycle order edges c ∧ m ∈ c ∧ n ∈ c := by
  obtain ⟨path, hchain, hnodup, hhead, hlast, hreach⟩ := exists_simple_chain hback
  have hmem : ∀ x ∈ path, x ∈ order := by
    intro x hx
    rcases (hreach x hx).cases_head with rfl | ⟨y, hlink', -⟩
    · exact hlink.1
    · exact hlink'.1
  have hleads : LeadsTo edges n path :=
    leadsTo_iff.mpr ⟨hchain.imp fun _ _ hrefers => hrefers.2.2, m, hlast, hlink.2.2⟩
  exact ⟨path, ⟨hnodup, hmem, n, hhead, hleads⟩, List.mem_of_getLast? hlast, List.mem_of_head? hhead⟩

/-! ## Cycles apart from others -/

/-- Cycles that share a module with this list have the same modules as it. -/
def IsApart (order : List String) (edges : List Edge) (modules : List String) : Prop :=
  ∀ c, IsCycle order edges c → (∃ m ∈ c, m ∈ modules) → SameModules c modules

/-- What leads out of a list does so over one of the references from it. -/
theorem exists_leaving {r : String → String → Prop} {m n : String} (hm : m ∈ modules)
    (hn : n ∉ modules) (h : ReflTransGen r m n) :
    ∃ a ∈ modules, ∃ b, b ∉ modules ∧ ReflTransGen r m a ∧ r a b ∧ ReflTransGen r b n := by
  induction h using ReflTransGen.head_induction_on with
  | refl => exact absurd hm hn
  | @head m c hlink hrest ih =>
    by_cases hc : c ∈ modules
    · obtain ⟨a, ha, b, hb, hto, hout, hfrom⟩ := ih hc
      exact ⟨a, ha, b, hb, ReflTransGen.head hlink hto, hout, hfrom⟩
    · exact ⟨m, hm, c, hc, ReflTransGen.refl, hlink, hrest⟩

/-- A list apart from other cycles holds every module that is connected with one of its own. -/
theorem IsApart.mem_of_connected (hapart : IsApart order edges modules) {m n : String}
    (hm : m ∈ modules) (hconnected : Connected order edges m n) : n ∈ modules := by
  by_contra hn
  obtain ⟨a, ha, b, hb, hto, hout, hfrom⟩ := exists_leaving hm hn hconnected.1
  have hback : ReflTransGen (RefersIn order edges) b a := (hfrom.trans hconnected.2).trans hto
  obtain ⟨c, hcycle, hac, hbc⟩ := exists_isCycle_of_refersIn hout hback
  exact hb ((hapart c hcycle ⟨a, hac, ha⟩ b).mp hbc)

/-- The modules of a cycle are connected. -/
theorem connected_of_isCycle (h : IsCycle order edges modules) {m n : String} (hm : m ∈ modules)
    (hn : n ∈ modules) : Connected order edges m n := by
  obtain ⟨first, -, hcircuit⟩ := exists_circuit_of_isCycle h
  have hto := hcircuit.mutual_of_mem (List.mem_map_of_mem hm)
  have hback := hcircuit.mutual_of_mem (List.mem_map_of_mem hn)
  have hconnected := connected_of_mutual (Mutual.trans ⟨hto.2, hto.1⟩ hback)
  rwa [nameAt_idxOf (h.2.1 m hm), nameAt_idxOf (h.2.1 n hn)] at hconnected

/-- In the component of a cycle there is a reported one. -/
theorem exists_mem_cycles_of_isCycle (h : IsCycle order edges modules) :
    ∃ c ∈ cycles order edges, ∀ m ∈ modules, ∀ n ∈ c, Connected order edges m n := by
  obtain ⟨first, hfirst, hcircuit⟩ := exists_circuit_of_isCycle h
  have hlifted : TransGen (RefersIn order edges) (nameAt order (order.idxOf first))
      (nameAt order (order.idxOf first)) :=
    (hcircuit.transGen_first hcircuit.first_mem).lift (nameAt order) fun _ _ => refersIn_of_leads
  rw [nameAt_idxOf (h.2.1 first hfirst)] at hlifted
  obtain ⟨c, hc, hconnected⟩ := exists_mem_cycles_of_transGen hlifted
  refine ⟨c, hc, fun m hm n hn => ?_⟩
  have hto := connected_of_isCycle h hm hfirst
  exact ⟨hto.1.trans (hconnected n hn).1, (hconnected n hn).2.trans hto.2⟩

/-- Each module of a list that leads to `first` refers to `first` or to a module of the list. -/
theorem LeadsTo.exists_refers {first : String} (h : LeadsTo edges first modules) {m : String}
    (hm : m ∈ modules) : ∃ n ∈ first :: modules, Refers edges m n := by
  induction modules with
  | nil => simp at hm
  | cons m' modules ih =>
    cases modules with
    | nil =>
      obtain rfl := List.mem_singleton.mp hm
      exact ⟨first, List.mem_cons_self .., h⟩
    | cons n modules =>
      rcases List.mem_cons.mp hm with rfl | hm
      · exact ⟨n, by simp, h.1⟩
      · obtain ⟨n', hn', hrefers⟩ := ih h.2 hm
        refine ⟨n', ?_, hrefers⟩
        rcases List.mem_cons.mp hn' with rfl | hn'
        · exact List.mem_cons_self ..
        · exact List.mem_cons_of_mem _ (List.mem_cons_of_mem _ hn')

/-- On a cycle each module refers to one of its modules. -/
theorem IsCycle.exists_refers (h : IsCycle order edges modules) {m : String} (hm : m ∈ modules) :
    ∃ n ∈ modules, Refers edges m n := by
  obtain ⟨-, -, first, hfirst, hleads⟩ := h
  obtain ⟨n, hn, hrefers⟩ := hleads.exists_refers hm
  rcases List.mem_cons.mp hn with rfl | hn
  · exact ⟨n, List.mem_of_head? hfirst, hrefers⟩
  · exact ⟨n, hn, hrefers⟩

/-- What leads into a list that no other module refers to is in the list. -/
theorem mem_of_leads_into (hinto : ∀ e ∈ edges, e.owner ∈ modules → e.consumer ∈ modules)
    {m n : String} (h : ReflTransGen (RefersIn order edges) m n) (hn : n ∈ modules) :
    m ∈ modules := by
  induction h using ReflTransGen.head_induction_on with
  | refl => exact hn
  | head hlink _ ih =>
    obtain ⟨-, -, symbol, hedge⟩ := hlink
    exact hinto _ hedge ih

/-- A cycle is apart from others when no other module refers to its modules, and each of these refers to no
more than one of them. -/
theorem IsCycle.isApart (h : IsCycle order edges modules)
    (hinto : ∀ e ∈ edges, e.owner ∈ modules → e.consumer ∈ modules)
    (honly : ∀ e ∈ edges, ∀ e' ∈ edges, e.consumer = e'.consumer → e.owner ∈ modules →
      e'.owner ∈ modules → e.owner = e'.owner) : IsApart order edges modules := by
  rintro c hc ⟨m, hm, hshared⟩
  have hsub : ∀ n ∈ c, n ∈ modules := fun n hn =>
    mem_of_leads_into hinto (connected_of_isCycle hc hn hm).1 hshared
  -- what a module of both cycles refers to on the one is what it refers to on the other
  have hnext : ∀ x ∈ c, ∀ y ∈ modules, Refers edges x y → y ∈ c := by
    rintro x hx y hy ⟨symbol, hedge⟩
    obtain ⟨z, hz, symbol', hedge'⟩ := hc.exists_refers hx
    obtain rfl : y = z := honly _ hedge _ hedge' rfl hy (hsub z hz)
    exact hz
  have hreach : ∀ {x n}, ReflTransGen (RefersIn order edges) x n → n ∈ modules → x ∈ c → n ∈ c := by
    intro x n hto hn hx
    induction hto using ReflTransGen.head_induction_on with
    | refl => exact hx
    | head hlink hrest ih => exact ih (hnext _ hx _ (mem_of_leads_into hinto hrest hn) hlink.2.2)
  exact fun n => ⟨hsub n, fun hn => hreach (connected_of_isCycle h hshared hn).1 hn hm⟩

/-! ## How often a cycle is reported -/

instance (c d : List String) : Decidable (SameModules c d) :=
  decidable_of_iff ((∀ m ∈ c, m ∈ d) ∧ ∀ m ∈ d, m ∈ c)
    ⟨fun h m => ⟨h.1 m, h.2 m⟩, fun h => ⟨fun m => (h m).mp, fun m => (h m).mpr⟩⟩

/-- How many of the reported lists have the given modules. -/
def reportCount (reported : List (List String)) (modules : List String) : Nat :=
  reported.countP fun c => SameModules c modules

theorem reportCount_le_one {reported : List (List String)}
    (h : reported.Pairwise fun c d => ¬ SameModules c d) (modules : List String) :
    reportCount reported modules ≤ 1 := by
  unfold reportCount
  induction h with
  | nil => exact Nat.zero_le 1
  | @cons c reported hdistinct _ ih =>
    by_cases hc : SameModules c modules
    · have hnone : reported.countP (fun d => SameModules d modules) = 0 := by
        refine List.countP_eq_zero.mpr fun d hd hsame => ?_
        exact hdistinct d hd (hc.trans (of_decide_eq_true hsame).symm)
      rw [List.countP_cons, hnone, if_pos (decide_eq_true hc)]
    · rw [List.countP_cons, if_neg (by simpa using hc)]
      exact ih

theorem reportCount_pos_of_mem {reported : List (List String)} {c : List String} (hc : c ∈ reported)
    (hsame : SameModules c modules) : 0 < reportCount reported modules :=
  List.countP_pos_iff.mpr ⟨c, hc, decide_eq_true hsame⟩

/-- A cycle apart from others is reported. -/
theorem IsApart.reportCount_pos (horder : order.Nodup) (hapart : IsApart order edges modules)
    (h : IsCycle order edges modules) : 0 < reportCount (cycles order edges) modules := by
  obtain ⟨c, hc, hconnected⟩ := exists_mem_cycles_of_isCycle h
  have hcycle := isCycle_of_mem_cycles horder hc
  obtain ⟨-, -, n, hn, -⟩ := hcycle
  obtain ⟨-, -, m, hm, -⟩ := h
  have hn' : n ∈ c := List.mem_of_head? hn
  have hm' : m ∈ modules := List.mem_of_head? hm
  have hshared : n ∈ modules := hapart.mem_of_connected hm' (hconnected m hm' n hn')
  exact reportCount_pos_of_mem hc (hapart c (isCycle_of_mem_cycles horder hc) ⟨n, hn', hshared⟩)

/-- A cycle is reported at most once, and exactly once if it shares no module with a cycle through other
modules; in any case some cycle of its component is reported. -/
theorem reportCount_of_isCycle (horder : order.Nodup) (h : IsCycle order edges modules) :
    reportCount (cycles order edges) modules ≤ 1 ∧
      (IsApart order edges modules → reportCount (cycles order edges) modules = 1) ∧
      ∃ c ∈ cycles order edges, ∀ m ∈ modules, ∀ n ∈ c, Connected order edges m n := by
  have hdistinct : (cycles order edges).Pairwise fun c d => ¬ SameModules c d :=
    pairwise_cycles horder
  have hle := reportCount_le_one hdistinct modules
  refine ⟨hle, fun hapart => ?_, exists_mem_cycles_of_isCycle h⟩
  have hpos := hapart.reportCount_pos horder h
  omega

/-- Four modules, of which three import each other in a circle and one of these imports the fourth. -/
def ringOrder : List String := ["core", "users", "audit", "deals"]

/-- The references among these modules, one of them of the fourth to itself. -/
def ringEdges : List Edge :=
  [⟨"core", "users", "a"⟩, ⟨"users", "deals", "b"⟩, ⟨"deals", "core", "c"⟩, ⟨"users", "audit", "d"⟩,
    ⟨"audit", "audit", "e"⟩]

theorem ringOrder_reportCount : ringOrder.Nodup ∧
    IsCycle ringOrder ringEdges ["deals", "core", "users"] ∧
    IsApart ringOrder ringEdges ["deals", "core", "users"] ∧
    reportCount (cycles ringOrder ringEdges) ["deals", "core", "users"] = 1 := by
  have hnodup : ringOrder.Nodup := by decide
  have hcycle : IsCycle ringOrder ringEdges ["deals", "core", "users"] :=
    ⟨by decide, by decide, "deals", rfl, ⟨"c", by decide⟩, ⟨"a", by decide⟩, "b", by decide⟩
  have hapart : IsApart ringOrder ringEdges ["deals", "core", "users"] :=
    hcycle.isApart (by decide) (by decide)
  exact ⟨hnodup, hcycle, hapart, (reportCount_of_isCycle hnodup hcycle).2.1 hapart⟩

/-- Three modules on one cycle, two of which are a cycle of their own. -/
def overlappingOrder : List String := ["core", "users", "deals"]

/-- The references among these modules. -/
def overlappingEdges : List Edge :=
  [⟨"core", "users", "a"⟩, ⟨"users", "core", "b"⟩, ⟨"core", "deals", "c"⟩, ⟨"deals", "users", "d"⟩]

/-- A cycle need not be reported, and a module on a cycle need not be in any report. -/
theorem not_all_cycles_reported :
    (¬ ∀ (order : List String) (edges : List Edge) (modules : List String), order.Nodup →
      IsCycle order edges modules → reportCount (cycles order edges) modules = 1) ∧
    ¬ ∀ (order : List String) (edges : List Edge) (m : String), order.Nodup →
      (∃ c, IsCycle order edges c ∧ m ∈ c) → ∃ c ∈ cycles order edges, m ∈ c := by
  have hnodup : overlappingOrder.Nodup := by decide
  have hcycle : IsCycle overlappingOrder overlappingEdges ["core", "deals", "users"] :=
    ⟨by decide, by decide, "core", rfl, ⟨"c", by decide⟩, ⟨"d", by decide⟩, "b", by decide⟩
  -- the search has left `users` when it comes to `deals`, so it does not go on from there
  have hreported : cycles overlappingOrder overlappingEdges = [["core", "users"]] := by
    decide +kernel
  constructor
  · intro hall
    have hcount := hall _ _ _ hnodup hcycle
    rw [hreported] at hcount
    exact absurd hcount (by decide)
  · intro hall
    obtain ⟨c, hc, hmem⟩ := hall _ _ "deals" hnodup ⟨_, hcycle, by decide⟩
    rw [hreported, List.mem_singleton] at hc
    subst hc
    exact absurd hmem (by decide)

end SchemaModules.Reference
