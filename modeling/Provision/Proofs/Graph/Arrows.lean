import Provision.Graph.Layers
import Provision.Graph.Search
import Provision.Proofs.Graph.Reachability

/-!
Graphs that differ in what their edges carry, but not in the nodes that the edges join. Paths are
found from the ends of the edges alone, and layers from these and the references of the nodes, so
that they are the same in both.
-/

namespace Provision.Graph

def arrows (g : Graph) : List (Nat × Nat) :=
  g.edges.map fun e => (e.source, e.target)

/-- Two graphs with the same nodes, which are joined in the same way. -/
structure SameArrows (g g' : Graph) : Prop where
  nodes_eq : g.nodes = g'.nodes
  arrows_eq : g.arrows = g'.arrows

/-- Two graphs whose nodes have the same references and are joined in the same way. -/
structure SameOutline (g g' : Graph) : Prop where
  references_eq : g.nodes.map (·.reference) = g'.nodes.map (·.reference)
  arrows_eq : g.arrows = g'.arrows

variable {g g' : Graph} {i target : Nat}

theorem SameArrows.sameOutline (h : g.SameArrows g') : g.SameOutline g' :=
  ⟨congrArg (List.map (·.reference)) h.nodes_eq, h.arrows_eq⟩

private theorem map_target_dependencies (g : Graph) (i : Nat) :
    (g.dependencies i).map (·.target) = (g.arrows.filter (·.1 == i)).map (·.2) := by
  rw [arrows, List.filter_map, List.map_map]
  rfl

private theorem map_source_dependents (g : Graph) (i : Nat) :
    (g.dependents i).map (·.source) = (g.arrows.filter (·.2 == i)).map (·.1) := by
  rw [arrows, List.filter_map, List.map_map]
  rfl

/-- Only the targets of edges are looked at for fresh ones. -/
theorem freshTargets_congr {edges edges' : List Edge} (seen : List Nat)
    (h : edges.map (·.target) = edges'.map (·.target)) :
    freshTargets seen edges = freshTargets seen edges' := by
  induction edges generalizing edges' seen with
  | nil =>
    rw [List.map_nil] at h
    rw [List.map_eq_nil_iff.mp h.symm]
  | cons e edges ih =>
    cases edges' with
    | nil => cases h
    | cons e' edges' =>
      obtain ⟨htarget, hrest⟩ := List.cons.inj h
      simp only [freshTargets, htarget]
      split
      · exact ih seen hrest
      · rw [ih (seen ++ [e'.target]) hrest]

namespace SameArrows

theorem refl (g : Graph) : g.SameArrows g :=
  ⟨rfl, rfl⟩

theorem size_eq (h : g.SameArrows g') : g.size = g'.size :=
  congrArg List.length h.nodes_eq

private theorem targets_eq (h : g.SameArrows g') (i : Nat) :
    (g.dependencies i).map (·.target) = (g'.dependencies i).map (·.target) := by
  rw [map_target_dependencies, map_target_dependencies, h.arrows_eq]

theorem addNode (h : g.SameArrows g') (n : Node) : (g.addNode n).SameArrows (g'.addNode n) :=
  ⟨congrArg (· ++ [n]) h.nodes_eq, h.arrows_eq⟩

theorem addEdge (h : g.SameArrows g') {e e' : Edge} (hsource : e.source = e'.source)
    (htarget : e.target = e'.target) : (g.addEdge e).SameArrows (g'.addEdge e') := by
  refine ⟨h.nodes_eq, ?_⟩
  have harrows : g.edges.map (fun e => (e.source, e.target)) =
      g'.edges.map fun e => (e.source, e.target) := h.arrows_eq
  simp [arrows, harrows, hsource, htarget]

section Paths

private theorem searchPath_eq (h : g.SameArrows g') (target : Nat) (queue : List (List Nat))
    (seen : List Nat) : g.searchPath target queue seen = g'.searchPath target queue seen := by
  fun_induction searchPath g target queue seen with
  | case1 seen => rw [searchPath]
  | case2 seen rest ih => rw [searchPath, ih]
  | case3 seen path rest => rw [searchPath, if_pos rfl]
  | case4 seen i path rest hi fresh ih =>
    have hfresh : fresh = freshTargets seen (g'.dependencies i) :=
      freshTargets_congr seen (h.targets_eq i)
    rw [searchPath, if_neg hi, ih, hfresh]

theorem path?_eq (h : g.SameArrows g') (source target : Nat) :
    g.path? source target = g'.path? source target :=
  h.searchPath_eq target [[source]] [source]

end Paths

end SameArrows

namespace SameOutline

private theorem size_eq (h : g.SameOutline g') : g.size = g'.size := by
  have hlength := congrArg List.length h.references_eq
  rwa [List.length_map, List.length_map] at hlength

private theorem sources_eq (h : g.SameOutline g') (i : Nat) :
    (g.dependents i).map (·.source) = (g'.dependents i).map (·.source) := by
  rw [map_source_dependents, map_source_dependents, h.arrows_eq]

private theorem length_dependencies_eq (h : g.SameOutline g') (i : Nat) :
    (g.dependencies i).length = (g'.dependencies i).length := by
  have htargets : (g.dependencies i).map (·.target) = (g'.dependencies i).map (·.target) := by
    rw [map_target_dependencies, map_target_dependencies, h.arrows_eq]
  have hlength := congrArg List.length htargets
  rwa [List.length_map, List.length_map] at hlength

private theorem initialPending_eq (h : g.SameOutline g') :
    g.initialPending = g'.initialPending := by
  simp only [initialPending, h.size_eq, h.length_dependencies_eq]

private theorem sortByName_eq (h : g.SameOutline g') (nodes : List Nat) :
    g.sortByName nodes = g'.sortByName nodes := by
  have hnames (i : Nat) : g.nodes[i]?.map (·.reference.name) =
      g'.nodes[i]?.map (·.reference.name) := by
    have hreference := congrArg (fun l : List Reference => l[i]?.map (·.name)) h.references_eq
    simp only [List.getElem?_map, Option.map_map] at hreference
    exact hreference
  simp only [sortByName, hnames]

private theorem dependentsOfLayer_eq (h : g.SameOutline g') (layer : List Nat) :
    g.dependentsOfLayer layer = g'.dependentsOfLayer layer := by
  simp only [dependentsOfLayer, h.sources_eq]

private theorem layersFrom_eq (h : g.SameOutline g') (pending released : List Nat) :
    g.layersFrom pending released = g'.layersFrom pending released := by
  fun_induction layersFrom g pending released with
  | case1 pending released hempty => rw [layersFrom, if_pos hempty]
  | case2 pending released hmore layer progress layers rest hlater ih =>
    rw [layersFrom, if_neg hmore]
    simp only [← h.sortByName_eq, ← h.dependentsOfLayer_eq]
    rw [← ih, hlater]

/-- The references of the nodes that are stuck are all that an error shows of them. -/
theorem stuck_eq (h : g.SameOutline g') (rest : List Nat) :
    ((g.nodes.zip rest).filter fun (_, count) => 0 < count).map (fun (n, _) => n.reference) =
      ((g'.nodes.zip rest).filter fun (_, count) => 0 < count).map fun (n, _) => n.reference := by
  have hstuck (nodes : List Node) :
      ((nodes.zip rest).filter fun (_, count) => 0 < count).map (fun (n, _) => n.reference) =
        (((nodes.map (·.reference)).zip rest).filter fun (_, count) => 0 < count).map (·.1) := by
    rw [List.zip_map_left, List.filter_map, List.map_map]
    rfl
  rw [hstuck, hstuck, h.references_eq]

theorem layers_eq (h : g.SameOutline g') : g.layers = g'.layers := by
  have hleaves : (fun i => (g.dependencies i).isEmpty) = fun i => (g'.dependencies i).isEmpty := by
    funext i
    rw [Bool.eq_iff_iff, List.isEmpty_iff_length_eq_zero, List.isEmpty_iff_length_eq_zero,
      h.length_dependencies_eq]
  simp only [layers, hleaves, h.size_eq, h.initialPending_eq, h.layersFrom_eq, h.stuck_eq]

end SameOutline

section NoPath

theorem mem_freshTargets {edges : List Edge} {seen : List Nat} {j : Nat}
    (h : j ∈ freshTargets seen edges) : ∃ e ∈ edges, e.target = j := by
  induction edges generalizing seen with
  | nil => cases h
  | cons e edges ih =>
    rw [freshTargets] at h
    split at h
    · obtain ⟨d, hd, htarget⟩ := ih h
      exact ⟨d, List.mem_cons_of_mem e hd, htarget⟩
    · rcases List.mem_cons.mp h with rfl | h
      · exact ⟨e, List.mem_cons_self, rfl⟩
      · obtain ⟨d, hd, htarget⟩ := ih h
        exact ⟨d, List.mem_cons_of_mem e hd, htarget⟩

/-- A search never comes to a node that no edge leads to. -/
theorem searchPath_eq_none (hedges : ∀ e ∈ g.edges, e.target ≠ target) {queue : List (List Nat)}
    (hqueue : ∀ path ∈ queue, path.head? ≠ some target) (seen : List Nat) :
    g.searchPath target queue seen = none := by
  fun_induction searchPath g target queue seen with
  | case1 seen => rfl
  | case2 seen rest ih => exact ih fun path hpath => hqueue path (List.mem_cons_of_mem [] hpath)
  | case3 seen path rest => exact absurd rfl (hqueue _ List.mem_cons_self)
  | case4 seen i path rest hi fresh ih =>
    refine ih fun longer hlonger => ?_
    rcases List.mem_append.mp hlonger with hold | hnew
    · exact hqueue longer (List.mem_cons_of_mem _ hold)
    · obtain ⟨j, hj, rfl⟩ := List.mem_map.mp hnew
      obtain ⟨e, he, htarget⟩ := mem_freshTargets hj
      have hne := hedges e (mem_dependencies.mp he).1
      rw [htarget] at hne
      simpa using hne

theorem path?_eq_none (hedges : ∀ e ∈ g.edges, e.target ≠ target) (hi : i ≠ target) :
    g.path? i target = none := by
  refine searchPath_eq_none hedges (fun path hpath => ?_) [i]
  rw [List.mem_singleton.mp hpath]
  simpa using hi

end NoPath

end Provision.Graph
