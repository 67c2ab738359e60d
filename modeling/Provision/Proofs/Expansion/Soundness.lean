import Mathlib.Data.List.Forall2
import Provision.Proofs.Expansion.Underway
import Provision.Proofs.Graph.Reachability

/-!
What the graph of a root is, however its expansion went. Each package name has one node, the edges
of a node are its requirements, and a version is the greatest that the first requirement of it
allows. Every part of this is an invariant of expansions under way.
-/

namespace Provision

namespace Graph

/-- The node of an index is the package of a reference. -/
def IsPackage (g : Graph) (i : Nat) (r : Reference) : Prop :=
  ∃ n, g.nodes[i]? = some n ∧ n.isVirtual = false ∧ n.reference = r

/-- No two package nodes have the same name. -/
def NamesUnique (g : Graph) : Prop :=
  ∀ i j r s, g.IsPackage i r → g.IsPackage j s → r.name = s.name → i = j

variable {g : Graph} {i : Nat} {r s : Reference}

private theorem IsPackage.lt_size (h : g.IsPackage i r) : i < g.size := by
  obtain ⟨n, hn, -⟩ := h
  exact lt_size_of_getElem? hn

theorem IsPackage.unique (hr : g.IsPackage i r) (hs : g.IsPackage i s) : r = s := by
  obtain ⟨n, hn, -, rfl⟩ := hr
  obtain ⟨m, hm, -, rfl⟩ := hs
  rw [Option.some.inj (hn.symm.trans hm)]

@[simp]
theorem isPackage_addEdge {e : Edge} : (g.addEdge e).IsPackage i r ↔ g.IsPackage i r :=
  Iff.rfl

private theorem isPackage_addNode {recipe : Recipe} :
    (g.addNode (.new s (some recipe))).IsPackage i r ↔ g.IsPackage i r ∨ i = g.size ∧ r = s := by
  constructor
  · rintro ⟨n, hn, hpackage, rfl⟩
    rcases getElem?_addNode_iff.mp hn with hn | ⟨rfl, rfl⟩
    · exact .inl ⟨n, hn, hpackage, rfl⟩
    · exact .inr ⟨rfl, rfl⟩
  · rintro (⟨n, hn, hpackage, rfl⟩ | ⟨rfl, rfl⟩)
    · exact ⟨n, getElem?_addNode_iff.mpr (.inl hn), hpackage, rfl⟩
    · exact ⟨_, getElem?_addNode_iff.mpr (.inr ⟨rfl, rfl⟩), rfl, rfl⟩

/-- Where names are unique, a search finds exactly the package node of a name. -/
theorem NamesUnique.find?_eq_some_iff (h : g.NamesUnique) {name : String} :
    g.find? name = some i ↔ ∃ r, g.IsPackage i r ∧ r.name = .ofText name := by
  have hholds : ∀ j, (g.nodes[j]?.any fun n =>
      !n.isVirtual && n.reference.name == .ofText name) = true ↔
        ∃ r, g.IsPackage j r ∧ r.name = .ofText name := by
    intro j
    simp only [Option.any_eq_true, Bool.and_eq_true, Bool.not_eq_true', beq_iff_eq]
    constructor
    · rintro ⟨n, hn, hpackage, hname⟩
      exact ⟨n.reference, ⟨n, hn, hpackage, rfl⟩, hname⟩
    · rintro ⟨r, ⟨n, hn, hpackage, rfl⟩, hname⟩
      exact ⟨n, hn, hpackage, hname⟩
  have hfound : ∀ j, g.find? name = some j → ∃ r, g.IsPackage j r ∧ r.name = .ofText name := by
    intro j hfind
    have hj := List.find?_some hfind
    exact (hholds j).mp hj
  constructor
  · exact hfound i
  · rintro ⟨r, hr, hname⟩
    cases hfind : g.find? name with
    | some j =>
      obtain ⟨s, hs, hsname⟩ := hfound j hfind
      rw [h i j r s hr hs (hname.trans hsname.symm)]
    | none =>
      have hmem : i ∈ (List.range g.size).reverse := by
        simpa using hr.lt_size
      exact absurd ((hholds i).mpr ⟨r, hr, hname⟩) (List.find?_eq_none.mp hfind i hmem)

end Graph

namespace Catalog

variable {c : Catalog} {name : PackageName} {constraint : Constraint} {requester : Reference}
  {v : Version}

/-- A version is the greatest of those in a catalog that satisfy a constraint. -/
structure IsGreatest (c : Catalog) (name : PackageName) (constraint : Constraint) (v : Version) :
    Prop where
  available : v ∈ c.available name
  satisfies : constraint.isSatisfied v = true
  greatest : ∀ w ∈ c.available name, constraint.isSatisfied w = true → (compare w v).isLE = true

private theorem pairwise_available (c : Catalog) (name : PackageName) :
    (c.available name).Pairwise fun a b => (compare a b).isLE = true :=
  pairwise_mergeSort_isLE compare _

theorem mem_available_ofIndex {index : RecipeIndex} :
    v ∈ (ofIndex index).available name ↔ v ∈ index.available name := by
  simp [available, ofIndex, announcedOf]

theorem isGreatest_of_chooseVersion (h : c.chooseVersion name constraint requester = .ok v) :
    c.IsGreatest name constraint v := by
  simp only [chooseVersion] at h
  split at h
  · cases h
  · split at h
    · rename_i hfind
      cases h
      obtain ⟨hsatisfied, before, after, hsplit, hbefore⟩ := List.find?_eq_some_iff_append.mp hfind
      have hsorted := List.pairwise_reverse.mpr (pairwise_available c name)
      rw [hsplit] at hsorted
      have hmem : ∀ w, w ∈ c.available name ↔ w ∈ before ∨ w = v ∨ w ∈ after := by
        intro w
        rw [← List.mem_reverse, hsplit]
        simp
      refine ⟨(hmem v).mpr (.inr (.inl rfl)), hsatisfied, fun w hw hwsat => ?_⟩
      rcases (hmem w).mp hw with hw | rfl | hw
      · have := hbefore w hw
        simp [hwsat] at this
      · exact Std.ReflCmp.isLE_rfl
      · exact List.rel_of_pairwise_cons (List.pairwise_append.mp hsorted).2.1 hw
    · cases h

end Catalog

namespace Expansion

variable {c : Catalog} {root : RootSpec} {pins : List Pin} {x y : Expansion} {i j : Nat}
  {requester : Reference} {req : Requirement} {met left : List Requirement}

theorem choice?_eq_some {name : PackageName} {chosen : Choice} (h : x.choice? name = some chosen) :
    chosen ∈ x.choices ∧ chosen.name = name := by
  refine ⟨List.mem_of_find?_eq_some h, ?_⟩
  simpa using List.find?_some h

theorem pin?_eq_some {name : PackageName} {pin : Pin} (h : x.pin? name = some pin) :
    pin ∈ x.pins ∧ pin.name = name := by
  refine ⟨List.mem_of_find?_eq_some h, ?_⟩
  simpa using List.find?_some h

theorem choice?_eq_none {name : PackageName} (h : x.choice? name = none) :
    ∀ chosen ∈ x.choices, chosen.name ≠ name := by
  intro chosen hchosen
  simpa using List.find?_eq_none.mp h chosen hchosen

theorem Underway.entered (h : Underway c root pins i met left x) :
    ∀ j n, x.graph.nodes[j]? = some n → Entered c root j n := by
  apply h.induction_graph (P := fun g => ∀ j n, g.nodes[j]? = some n → Entered c root j n)
  · intro m hm j n hn
    cases j with
    | zero =>
      obtain rfl : m = n := by simpa [Graph.ofRoot] using hn
      exact hm
    | succ j => simp [Graph.ofRoot] at hn
  · intro i met left req x chosen h hchosen ih
    exact ih
  · intro i met left req x requester version recipe h hfree hchoose ih j n hn
    rcases Graph.getElem?_addNode_iff.mp hn with hn | ⟨rfl, rfl⟩
    · exact ih j n hn
    · have hlt := h.queue_eq.1
      exact .dependency (by omega) (Catalog.choose_eq_ok hchoose).2

/-- The choices are the package nodes. -/
theorem Underway.isPackage_iff (h : Underway c root pins i met left x) :
    ∀ {j : Nat} {r : Reference}, x.graph.IsPackage j r ↔
      ∃ chosen ∈ x.choices, chosen.node = j ∧ ⟨chosen.name, chosen.version⟩ = r := by
  induction h with
  | start hstart hnode =>
    intro j r
    cases started_of_start hstart with
    | consumer => cases j <;> simp [Graph.IsPackage, Graph.ofRoot, Node.new, Node.isVirtual]
    | package => cases j <;> simp [Graph.IsPackage, Graph.ofRoot, Node.new, Node.isVirtual]
  | meet h hnode hmeet ih =>
    cases hmeet with
    | repeated => exact ih
    | pinned => exact ih
    | joined => exact ih
    | added version recipe hplain hfree hchoose =>
      intro j r
      rw [Graph.isPackage_addEdge, Graph.isPackage_addNode, ih]
      simp only [List.mem_append, List.mem_singleton, or_and_right, exists_or, exists_eq_left,
        eq_comm (a := j), eq_comm (a := r)]
  | next h hqueue hnode ih => exact ih

theorem Underway.isPackage_choice (h : Underway c root pins i met left x) {name : PackageName}
    {chosen : Choice} (hchosen : x.choice? name = some chosen) :
    x.graph.IsPackage chosen.node ⟨name, chosen.version⟩ := by
  obtain ⟨hmem, rfl⟩ := choice?_eq_some hchosen
  exact h.isPackage_iff.mpr ⟨chosen, hmem, rfl, rfl⟩

theorem Underway.namesUnique (h : Underway c root pins i met left x) : x.graph.NamesUnique := by
  apply h.induction_graph
  · intro n _ j k r s hj hk _
    have hj := hj.lt_size
    have hk := hk.lt_size
    simp only [Graph.size, Graph.ofRoot, List.length_singleton] at hj hk
    omega
  · intro i met left req x chosen h hchosen ih
    exact ih
  · intro i met left req x requester version recipe h hfree hchoose ih j k r s hj hk hname
    -- an older node of the name would have been a choice
    have hnew : ∀ j r, x.graph.IsPackage j r → r.name ≠ req.name := by
      intro j r hr hname
      obtain ⟨chosen, hmem, -, rfl⟩ := h.isPackage_iff.mp hr
      exact choice?_eq_none hfree chosen hmem hname
    rw [Graph.isPackage_addEdge, Graph.isPackage_addNode] at hj hk
    rcases hj with hj | ⟨rfl, rfl⟩ <;> rcases hk with hk | ⟨rfl, rfl⟩
    · exact ih j k r s hj hk hname
    · exact absurd hname (hnew j r hj)
    · exact absurd hname.symm (hnew k s hk)
    · rfl

theorem Underway.edgesInside (h : Underway c root pins i met left x) : x.graph.EdgesInside := by
  apply h.induction_graph
  · intro n _
    simp [Graph.EdgesInside, Graph.ofRoot]
  · intro i met left req x chosen h hchosen ih e he
    rcases List.mem_append.mp he with he | he
    · exact ih e he
    · rw [List.mem_singleton.mp he]
      exact ⟨h.queue_eq.1, (h.isPackage_choice hchosen).lt_size⟩
  · intro i met left req x requester version recipe h hfree hchoose ih e he
    have hlt := h.queue_eq.1
    rw [Graph.size_addEdge, Graph.size_addNode]
    rcases List.mem_append.mp he with he | he
    · have := ih e he
      omega
    · rw [List.mem_singleton.mp he]
      simp only [edgeFor]
      omega

private theorem Underway.reaches (h : Underway c root pins i met left x) :
    ∀ j < x.graph.size, x.graph.Reaches 0 j := by
  apply h.induction_graph (P := fun g => ∀ j < g.size, g.Reaches 0 j)
  · intro n _ j hj
    obtain rfl : j = 0 := by simpa [Graph.size, Graph.ofRoot] using hj
    exact .refl
  · intro i met left req x chosen h hchosen ih j hj
    exact (ih j hj).mono fun e he => List.mem_append_left _ he
  · intro i met left req x requester version recipe h hfree hchoose ih j hj
    have hlt := h.queue_eq.1
    rw [Graph.size_addEdge, Graph.size_addNode] at hj
    rcases Nat.lt_succ_iff_lt_or_eq.mp hj with hj | rfl
    · exact (ih j hj).mono fun e he => List.mem_append_left _ he
    · -- the new edge leads to the new node, from the node in hand
      refine .tail ((ih i hlt).mono fun e he => List.mem_append_left _ he) ?_
      exact ⟨_, List.mem_concat_self, rfl, rfl⟩

private theorem Underway.positions (h : Underway c root pins i met left x) :
    x.position = x.graph.edges.length ∧
      x.graph.edges.map (·.position) = List.range' 1 x.graph.edges.length := by
  induction h with
  | start hstart hnode =>
    obtain ⟨m, -, hgraph, -, -, hposition⟩ := start_spec hstart
    simp [hgraph, hposition, Graph.ofRoot]
  | meet h hnode hmeet ih =>
    obtain ⟨hposition, hedges⟩ := ih
    cases hmeet with
    | repeated => exact ⟨hposition, hedges⟩
    | pinned => exact ⟨hposition, hedges⟩
    | joined => simp [hedges, edgeFor, hposition, List.range'_concat, Nat.add_comm]
    | added => simp [hedges, edgeFor, hposition, List.range'_concat, Nat.add_comm]
  | next h hqueue hnode ih => exact ih

theorem Underway.fromCatalog (h : Underway c root pins i met left x) : x.FromCatalog c := by
  intro n hn recipe hrecipe
  obtain ⟨j, hj⟩ := List.mem_iff_getElem?.mp hn
  cases h.entered j n hj with
  | consumer => cases hrecipe
  | package hfound =>
    cases hrecipe
    exact Catalog.mem_recipes_of_recipe? hfound
  | dependency hpos hfound =>
    cases hrecipe
    exact Catalog.mem_recipes_of_recipe? hfound

theorem Underway.mem_allRequirements (h : Underway c root pins i met (req :: left) x) :
    req ∈ c.allRequirements root := by
  obtain ⟨n, hn, hreqs⟩ := h.exists_node
  refine requirementsOf_subset root (h.fromCatalog n (List.mem_of_getElem? hn)) req ?_
  rw [hreqs]
  exact List.mem_append_right _ List.mem_cons_self

theorem Underway.mem_overrideNames (h : Underway c root pins i met (req :: left) x)
    (hoverride : req.isOverride = true) : req.name ∈ c.overrideNames root :=
  List.mem_map_of_mem (List.mem_filter.mpr ⟨h.mem_allRequirements, hoverride⟩)

/-- Only names that some override is for are pinned. -/
theorem Underway.pins_subset (h : Underway c root pins i met left x)
    (hpins : ∀ pin ∈ pins, pin.name ∈ c.overrideNames root) :
    ∀ pin ∈ x.pins, pin.name ∈ c.overrideNames root := by
  induction h with
  | start hstart hnode =>
    obtain ⟨m, -, -, -, hstarted, -⟩ := start_spec hstart
    rwa [hstarted]
  | meet h hnode hmeet ih =>
    cases hmeet with
    | repeated => exact ih
    | pinned hoverride hfree hfits =>
      intro pin hpin
      rcases List.mem_append.mp hpin with hpin | hpin
      · exact ih pin hpin
      · rw [List.mem_singleton.mp hpin]
        exact h.mem_overrideNames hoverride
    | joined => exact ih
    | added => exact ih
  | next h hqueue hnode ih => exact ih

/-- A requirement is met under its own constraint where no override is for its name. -/
theorem Underway.constraintFor_eq (h : Underway c root pins i met left x)
    (hpins : ∀ pin ∈ pins, pin.name ∈ c.overrideNames root)
    (hfree : req.name ∉ c.overrideNames root) : x.constraintFor req = req.constraint := by
  have hnone : x.pin? req.name = none := by
    refine List.find?_eq_none.mpr fun pin hpin hname => hfree ?_
    rw [← beq_iff_eq.mp hname]
    exact h.pins_subset hpins pin hpin
  simp [constraintFor, hnone]

/-- An edge is what a requirement becomes in the graph of a root. -/
structure Meets (c : Catalog) (root : RootSpec) (g : Graph) (e : Edge) (req : Requirement) :
    Prop where
  /-- The target is the package of the required name, and its version is allowed. -/
  target : ∃ r, g.IsPackage e.target r ∧ r.name = req.name ∧
    e.constraint.isSatisfied r.version = true
  isTransitive_eq : e.isTransitive = req.isTransitive
  /-- Only an override of the name can take the place of the constraint. -/
  constraint_eq : req.name ∉ c.overrideNames root → e.constraint = req.constraint

private theorem Meets.mono {g g' : Graph} {e : Edge}
    (hgrow : ∀ j r, g.IsPackage j r → g'.IsPackage j r) (h : Meets c root g e req) :
    Meets c root g' e req := by
  obtain ⟨r, hr, hname, hfits⟩ := h.target
  exact ⟨⟨r, hgrow _ r hr, hname, hfits⟩, h.isTransitive_eq, h.constraint_eq⟩

private theorem Met.isPackage (h : Met c i requester req x y) {r : Reference}
    (hr : x.graph.IsPackage j r) : y.graph.IsPackage j r := by
  obtain ⟨n, hn, hpackage, hreference⟩ := hr
  exact ⟨n, h.getElem?_nodes hn, hpackage, hreference⟩

theorem Met.old_or_new (h : Met c i requester req x y) {n : Node}
    (hn : y.graph.nodes[j]? = some n) : x.graph.nodes[j]? = some n ∨ j = x.graph.size := by
  cases h with
  | repeated => exact .inl hn
  | pinned => exact .inl hn
  | joined => exact .inl hn
  | added => exact (Graph.getElem?_addNode_iff.mp hn).imp_right And.left

/-- The edge with which an expansion has met a requirement. -/
structure Stands (x y : Expansion) (e : Edge) (req : Requirement) : Prop where
  target : ∃ r, y.graph.IsPackage e.target r ∧ r.name = req.name ∧
    (x.constraintFor req).isSatisfied r.version = true
  isTransitive_eq : e.isTransitive = req.isTransitive
  constraint_eq : e.constraint = x.constraintFor req

/-- Meeting a requirement that is not an override adds one edge from the node in hand, and meeting
an override adds none. -/
theorem Underway.dependencies_meet (h : Underway c root pins i met (req :: left) x)
    (hmeet : Met c i requester req x y) :
    ∃ new, (∀ j, y.graph.dependencies j = x.graph.dependencies j ++ if i = j then new else []) ∧
      List.Forall₂ (Stands x y) new ([req].filter (!·.isOverride)) := by
  cases hmeet with
  | repeated pin hoverride => exact ⟨[], by simp, by simp [hoverride]⟩
  | pinned hoverride => exact ⟨[], by simp, by simp [hoverride]⟩
  | joined chosen hplain hchosen hfits hpath =>
    refine ⟨[_], fun j => Graph.dependencies_addEdge, ?_⟩
    simp only [hplain, Bool.not_false, List.filter_cons_of_pos, List.filter_nil]
    exact .cons ⟨⟨_, h.isPackage_choice hchosen, rfl, hfits⟩, rfl, rfl⟩ .nil
  | added version recipe hplain hfree hchoose =>
    refine ⟨[_], fun j => Graph.dependencies_addEdge, ?_⟩
    simp only [hplain, Bool.not_false, List.filter_cons_of_pos, List.filter_nil]
    have hnew : (x.graph.addNode (.new ⟨req.name, version⟩ (some recipe))).IsPackage
        x.graph.size ⟨req.name, version⟩ := Graph.isPackage_addNode.mpr (.inr ⟨rfl, rfl⟩)
    have hgreatest := Catalog.isGreatest_of_chooseVersion (Catalog.choose_eq_ok hchoose).1
    exact .cons ⟨⟨_, hnew, rfl, hgreatest.satisfies⟩, rfl, rfl⟩ .nil

/-- The requirements of a node that are met while `met` are met of the node `i` in hand. -/
def metOf (root : RootSpec) (i : Nat) (met : List Requirement) (j : Nat) (n : Node) :
    List Requirement :=
  if j < i then requirementsOf root n else if j = i then met else []

theorem metOf_concat {n : Node} :
    metOf root i (met ++ [req]) j n = metOf root i met j n ++ if i = j then [req] else [] := by
  unfold metOf
  by_cases hlt : j < i
  · rw [if_pos hlt, if_pos hlt, if_neg (by omega), List.append_nil]
  · by_cases heq : j = i
    · simp [heq]
    · simp [hlt, heq, Ne.symm heq]

theorem metOf_next {m n : Node} {nodes : List Node} (hi : nodes[i]? = some m)
    (hmet : requirementsOf root m = met) (hj : nodes[j]? = some n) :
    metOf root (i + 1) [] j n = metOf root i met j n := by
  unfold metOf
  rcases Nat.lt_trichotomy j i with hlt | rfl | hgt
  · rw [if_pos hlt, if_pos (by omega)]
  · obtain rfl : m = n := Option.some.inj (hi.symm.trans hj)
    rw [if_pos (by omega), if_neg (by omega), if_pos rfl, hmet]
  · have hnext : ¬j < i + 1 := by omega
    have hlast : ¬j < i := by omega
    rw [if_neg hnext, if_neg hlast, if_neg (Nat.ne_of_gt hgt), ite_self]

/-- The edges of a node are those of its requirements that are met, in order. They relate to them as
new edges do, if later steps keep the relation. -/
theorem Underway.forall₂_dependencies {R : Graph → List Pin → Edge → Requirement → Prop}
    (hkept : ∀ {i requester req x y e other}, Met c i requester req x y →
      R x.graph x.pins e other → R y.graph y.pins e other)
    (hnew : ∀ {i met left requester req x y e other},
      Underway c root pins i met (req :: left) x → Met c i requester req x y →
        Stands x y e other → R y.graph y.pins e other)
    (h : Underway c root pins i met left x) :
    ∀ j n, x.graph.nodes[j]? = some n → List.Forall₂ (R x.graph x.pins)
      (x.graph.dependencies j) ((metOf root i met j n).filter (!·.isOverride)) := by
  induction h with
  | start hstart hnode =>
    intro j n hn
    obtain ⟨m, -, hgraph, -⟩ := start_spec hstart
    simp [hgraph, Graph.ofRoot, Graph.dependencies, metOf]
  | @meet i met left req x y m h hnode hmeet ih =>
    intro j n hn
    have hlt := h.queue_eq.1
    obtain ⟨new, hdependencies, hstands⟩ := h.dependencies_meet hmeet
    have hold : List.Forall₂ (R x.graph x.pins) (x.graph.dependencies j)
        ((metOf root i met j n).filter (!·.isOverride)) := by
      rcases hmeet.old_or_new hn with hn | rfl
      · exact ih j n hn
      · rw [h.edgesInside.dependencies_size, metOf, if_neg (by omega), if_neg (by omega)]
        exact .nil
    have hold := hold.imp fun e other => hkept hmeet
    have hstands := hstands.imp fun e other => hnew h hmeet
    rw [hdependencies j, metOf_concat, List.filter_append]
    by_cases hij : i = j
    · rw [if_pos hij, if_pos hij]
      exact List.rel_append hold hstands
    · rw [if_neg hij, if_neg hij, List.filter_nil, List.append_nil, List.append_nil]
      exact hold
  | next h hqueue hnode ih =>
    obtain rfl := h.head_queue hqueue
    obtain ⟨m, hm, hreqs⟩ := h.exists_node
    rw [List.append_nil] at hreqs
    intro j n hn
    rw [metOf_next hm hreqs hn]
    exact ih j n hn

/-- With the last node in hand and nothing left of it, every node has met all its requirements. -/
theorem Underway.metOf_eq (h : Underway c root pins i met [] x) (hlast : i + 1 = x.graph.size)
    {n : Node} (hn : x.graph.nodes[j]? = some n) : metOf root i met j n = requirementsOf root n := by
  obtain ⟨m, hm, hreqs⟩ := h.exists_node
  rw [List.append_nil] at hreqs
  have hlt := Graph.lt_size_of_getElem? hn
  rw [← metOf_next hm hreqs hn, metOf, if_pos (by omega)]

/-- The edges of a node meet its requirements that are met. -/
theorem Underway.meets (h : Underway c root pins i met left x)
    (hpins : ∀ pin ∈ pins, pin.name ∈ c.overrideNames root) :
    ∀ j n, x.graph.nodes[j]? = some n → List.Forall₂ (Meets c root x.graph)
      (x.graph.dependencies j) ((metOf root i met j n).filter (!·.isOverride)) := by
  refine h.forall₂_dependencies (R := fun g _ => Meets c root g) ?_ ?_
  · intro i requester req x y e other hmeet
    exact Meets.mono fun _ _ => hmeet.isPackage
  · intro i met left requester req x y e other h hmeet hstands
    obtain ⟨r, hr, hname, hfits⟩ := hstands.target
    refine ⟨⟨r, hr, hname, hstands.constraint_eq ▸ hfits⟩, hstands.isTransitive_eq, fun hfree => ?_⟩
    exact hstands.constraint_eq.trans (h.constraintFor_eq hpins hfree)

/-- A node other than the root has the greatest version that its first edge allows. -/
theorem Underway.greatest (h : Underway c root pins i met left x) :
    ∀ j n, 0 < j → x.graph.nodes[j]? = some n →
      ∃ first rest, x.graph.dependents j = first :: rest ∧
        c.IsGreatest n.reference.name first.constraint n.reference.version := by
  apply h.induction_graph (P := fun g => ∀ j n, 0 < j → g.nodes[j]? = some n →
    ∃ first rest, g.dependents j = first :: rest ∧
      c.IsGreatest n.reference.name first.constraint n.reference.version)
  · intro m _ j n hpos hn
    have hlt := Graph.lt_size_of_getElem? hn
    simp only [Graph.size, Graph.ofRoot, List.length_singleton] at hlt
    omega
  · intro i met left req x chosen h hchosen ih j n hpos hn
    obtain ⟨first, rest, hfirst, hgreatest⟩ := ih j n hpos hn
    rw [Graph.dependents_addEdge, hfirst, List.cons_append]
    exact ⟨first, _, rfl, hgreatest⟩
  · intro i met left req x requester version recipe h hfree hchoose ih j n hpos hn
    rw [Graph.dependents_addEdge, Graph.dependents_addNode]
    rcases Graph.getElem?_addNode_iff.mp hn with hn | ⟨rfl, rfl⟩
    · obtain ⟨first, rest, hfirst, hgreatest⟩ := ih j n hpos hn
      rw [hfirst, List.cons_append]
      exact ⟨first, _, rfl, hgreatest⟩
    · have htarget : (x.edgeFor i req x.graph.size).target = x.graph.size := rfl
      rw [h.edgesInside.dependents_size, List.nil_append, if_pos htarget]
      exact ⟨_, [], rfl, Catalog.isGreatest_of_chooseVersion (Catalog.choose_eq_ok hchoose).1⟩

end Expansion

namespace Catalog

open Expansion

variable {c : Catalog} {root : RootSpec} {pins : List Pin}

theorem Restarted.pins_subset (h : Restarted c root pins) :
    ∀ pin ∈ pins, pin.name ∈ c.overrideNames root := by
  induction h with
  | none => simp
  | restart h hrestart ih =>
    obtain ⟨i, met, req, left, z, n, hunderway, -, hmeet⟩ := underway_of_restart hrestart
    obtain ⟨hoverride, -, -, rfl⟩ := restart_of_meet hmeet
    intro pin hpin
    rcases List.mem_append.mp hpin with hpin | hpin
    · exact hunderway.pins_subset ih pin hpin
    · rw [List.mem_singleton.mp hpin]
      exact hunderway.mem_overrideNames hoverride

/-- What a catalog and a root promise of a graph. -/
structure IsSound (c : Catalog) (root : RootSpec) (g : Graph) : Prop where
  nonempty : 0 < g.size
  /-- Nodes are the root and recipes of the catalog, with nothing known about them. -/
  entered : ∀ i n, g.nodes[i]? = some n → Entered c root i n
  namesUnique : g.NamesUnique
  find?_iff : ∀ name i, g.find? name = some i ↔ ∃ r, g.IsPackage i r ∧ r.name = .ofText name
  edgesInside : g.EdgesInside
  reaches : ∀ i < g.size, g.Reaches 0 i
  /-- The edges of a node are its requirements, in order. -/
  meets : ∀ i n, g.nodes[i]? = some n →
    List.Forall₂ (Meets c root g) (g.dependencies i)
      ((requirementsOf root n).filter (!·.isOverride))
  positions : g.edges.map (·.position) = List.range' 1 g.edges.length
  /-- The first edge to a node has chosen its version. -/
  greatest : ∀ i n, 0 < i → g.nodes[i]? = some n →
    ∃ first rest, g.dependents i = first :: rest ∧
      c.IsGreatest n.reference.name first.constraint n.reference.version

theorem isSound_of_underway {x : Expansion} {i : Nat} {met : List Requirement}
    (hpins : Restarted c root pins) (h : Underway c root pins i met [] x)
    (hlast : i + 1 = x.graph.size) : c.IsSound root x.graph := by
  have hmeets := h.meets hpins.pins_subset
  refine
    { nonempty := by omega
      entered := h.entered
      namesUnique := h.namesUnique
      find?_iff := fun name j => h.namesUnique.find?_eq_some_iff
      edgesInside := h.edgesInside
      reaches := h.reaches
      meets := fun j n hn => ?_
      positions := h.positions.2
      greatest := h.greatest }
  rw [← h.metOf_eq hlast hn]
  exact hmeets j n hn

/-- A graph that is built keeps all promises. -/
theorem isSound_of_build {g : Graph} (h : c.build root = .ok g) : c.IsSound root g := by
  obtain ⟨-, pins, i, met, x, hrestarted, hunderway, hlast, rfl⟩ := build_eq_ok h
  exact isSound_of_underway hrestarted hunderway hlast

/-- A catalog with a package and the library that it requires, which has some hooks. -/
def ofLibrary (hooks : Hooks) : Catalog :=
  .ofIndex <|
    (RecipeIndex.empty.upsert ⟨.ofTexts "zlib" "1.3.0", [], ∅, [], hooks⟩).upsert
      ⟨.ofTexts "app" "1.0", [], ∅, [⟨.ofText "zlib", .exact (.ofText "1.3"), false, true⟩], .none⟩

theorem isSound_ofLibrary :
    ∃ g, (ofLibrary .none).build (.package (.ofTexts "app" "1.0")) = .ok g ∧
      g.edges.length = 1 ∧ (ofLibrary .none).IsSound (.package (.ofTexts "app" "1.0")) g := by
  have hedges : ((ofLibrary .none).build (.package (.ofTexts "app" "1.0"))).toOption.map
      (·.edges.length) = some 1 := by decide +kernel
  cases h : (ofLibrary .none).build (.package (.ofTexts "app" "1.0")) with
  | ok g =>
    rw [h] at hedges
    exact ⟨g, rfl, Option.some.inj hedges, isSound_of_build h⟩
  | error e =>
    rw [h] at hedges
    cases hedges

end Catalog

end Provision
