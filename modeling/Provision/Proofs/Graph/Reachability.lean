import Mathlib.Logic.Relation
import Provision.Graph.Search

/-!
Edges and paths of a dependency graph, and how they change when the graph grows. What an identity
closure lists is reachable, and a set of nodes that every edge stays inside holds the closures of
its members.
-/

namespace Provision.Graph

/-- Some edge leads from a node to another. -/
def HasEdge (g : Graph) (i j : Nat) : Prop :=
  ∃ e ∈ g.edges, e.source = i ∧ e.target = j

instance (g : Graph) (i j : Nat) : Decidable (g.HasEdge i j) :=
  inferInstanceAs (Decidable (∃ e ∈ g.edges, e.source = i ∧ e.target = j))

/-- A path of edges leads from a node to another. -/
def Reaches (g : Graph) : Nat → Nat → Prop :=
  Relation.ReflTransGen g.HasEdge

/-- Every edge joins nodes of the graph. -/
def EdgesInside (g : Graph) : Prop :=
  ∀ e ∈ g.edges, e.source < g.size ∧ e.target < g.size

variable {g : Graph} {i j : Nat}

theorem mem_dependencies {e : Edge} : e ∈ g.dependencies i ↔ e ∈ g.edges ∧ e.source = i := by
  simp [dependencies]

theorem mem_dependents {e : Edge} : e ∈ g.dependents i ↔ e ∈ g.edges ∧ e.target = i := by
  simp [dependents]

theorem mem_targets_iff : j ∈ (g.dependencies i).map (·.target) ↔ g.HasEdge i j := by
  simp [dependencies, HasEdge, and_assoc]

theorem hasEdge_of_mem_exposed (h : j ∈ g.exposed i) : g.HasEdge i j := by
  simp only [exposed, List.mem_map, List.mem_filter, mem_dependencies] at h
  obtain ⟨e, ⟨he, -⟩, hj⟩ := h
  exact ⟨e, he.1, he.2, hj⟩

section Growth

variable {e : Edge} {m n : Node}

@[simp]
theorem edges_addEdge : (g.addEdge e).edges = g.edges ++ [e] :=
  rfl

@[simp]
theorem size_addEdge : (g.addEdge e).size = g.size :=
  rfl

@[simp]
theorem edges_addNode : (g.addNode n).edges = g.edges :=
  rfl

@[simp]
theorem size_addNode : (g.addNode n).size = g.size + 1 :=
  List.length_append

theorem dependencies_addEdge :
    (g.addEdge e).dependencies i = g.dependencies i ++ if e.source = i then [e] else [] := by
  by_cases h : e.source = i <;> simp [dependencies, h]

theorem dependents_addEdge :
    (g.addEdge e).dependents i = g.dependents i ++ if e.target = i then [e] else [] := by
  by_cases h : e.target = i <;> simp [dependents, h]

@[simp]
theorem dependents_addNode : (g.addNode n).dependents i = g.dependents i :=
  rfl

theorem lt_size_of_getElem? (h : g.nodes[i]? = some n) : i < g.size :=
  (List.getElem?_eq_some_iff.mp h).1

theorem getElem?_eq_none_of_size_le (h : g.size ≤ i) : g.nodes[i]? = none :=
  List.getElem?_eq_none_iff.mpr h

theorem eq_of_nodes_of_edges {g' : Graph} (hnodes : g'.nodes = g.nodes)
    (hedges : g'.edges = g.edges) : g' = g := by
  cases g
  cases g'
  cases hnodes
  cases hedges
  rfl

theorem exists_getElem?_of_lt_size (h : i < g.size) : ∃ n, g.nodes[i]? = some n :=
  ⟨g.nodes[i], List.getElem?_eq_getElem h⟩

theorem getElem?_addNode_iff :
    (g.addNode n).nodes[i]? = some m ↔ g.nodes[i]? = some m ∨ i = g.size ∧ m = n := by
  have hnodes : (g.addNode n).nodes = g.nodes ++ [n] := rfl
  rw [hnodes]
  constructor
  · intro h
    have hlt := (List.getElem?_eq_some_iff.mp h).1
    rw [List.length_append, List.length_singleton] at hlt
    rcases Nat.lt_succ_iff_lt_or_eq.mp hlt with hlt | rfl
    · exact .inl (List.getElem?_append_left hlt ▸ h)
    · simp at h
      exact .inr ⟨rfl, h.symm⟩
  · rintro (h | ⟨rfl, rfl⟩)
    · rw [List.getElem?_append_left (lt_size_of_getElem? h), h]
    · exact List.getElem?_concat_length

theorem Reaches.mono {g' : Graph} (hedges : ∀ e ∈ g.edges, e ∈ g'.edges) (h : g.Reaches i j) :
    g'.Reaches i j := by
  refine Relation.ReflTransGen.mono (p := g'.HasEdge) (fun a b => ?_) i j h
  rintro ⟨e, he, hsource, htarget⟩
  exact ⟨e, hedges e he, hsource, htarget⟩

/-- Nothing leads to or from an index beyond the nodes. -/
theorem EdgesInside.dependencies_size (h : g.EdgesInside) : g.dependencies g.size = [] := by
  refine List.filter_eq_nil_iff.mpr fun e he => ?_
  have := (h e he).1
  simp only [beq_iff_eq]
  omega

theorem EdgesInside.dependents_size (h : g.EdgesInside) : g.dependents g.size = [] := by
  refine List.filter_eq_nil_iff.mpr fun e he => ?_
  have := (h e he).2
  simp only [beq_iff_eq]
  omega

end Growth

/-- The search behind a closure never leaves a set that holds its queue and that edges do not lead
out of. -/
theorem closureFrom_subset {P : Nat → Prop} (hP : ∀ a b, P a → g.HasEdge a b → P b)
    {queue found : List Nat} (hqueue : ∀ a ∈ queue, P a) (hfound : ∀ a ∈ found, P a) :
    ∀ a ∈ g.closureFrom queue found, P a := by
  induction queue, found using closureFrom.induct (g := g) with
  | case1 found =>
    rw [closureFrom]
    exact hfound
  | case2 found a rest hseen ih =>
    rw [closureFrom, if_pos hseen]
    exact ih (fun b hb => hqueue b (List.mem_cons_of_mem _ hb)) hfound
  | case3 found a rest hseen ih =>
    rw [closureFrom, if_neg hseen]
    have ha : P a := hqueue a List.mem_cons_self
    apply ih
    · intro b hb
      rcases List.mem_append.mp hb with hb | hb
      · exact hqueue b (List.mem_cons_of_mem _ hb)
      · exact hP a b ha (hasEdge_of_mem_exposed hb)
    · intro b hb
      rcases List.mem_append.mp hb with hb | hb
      · exact hfound b hb
      · rwa [List.mem_singleton.mp hb]

theorem identityClosure_subset {P : Nat → Prop} (hP : ∀ a b, P a → g.HasEdge a b → P b)
    (hdirect : ∀ a, g.HasEdge i a → P a) : ∀ a ∈ g.identityClosure i, P a := by
  apply closureFrom_subset hP
  · intro a ha
    exact hdirect a (mem_targets_iff.mp ha)
  · simp

end Provision.Graph
