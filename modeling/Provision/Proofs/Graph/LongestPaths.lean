import Mathlib.Data.Fintype.EquivFin
import Mathlib.Data.List.Forall2
import Mathlib.Order.Bounds.Basic
import Mathlib.Order.WellFounded
import Provision.Proofs.Graph.Countdown

/-!
Layers by height. A node that is not in the lowest layer has an edge into the layer right below its
own, and all its edges lead to lower layers, so that the index of its layer is the length of the
longest path from it. The nodes that come into no layer have an edge to another such node each, so
that, the graph being finite, they are those from which a cycle can be reached.
-/

namespace Provision.Graph

/-- A path of a length leads from a node along dependencies. -/
inductive HasPath (g : Graph) : Nat → Nat → Prop
  | stop (i : Nat) : HasPath g i 0
  | step {i j length : Nat} (hedge : g.HasEdge i j) (hpath : HasPath g j length) :
      HasPath g i (length + 1)

def IsAcyclic (g : Graph) : Prop :=
  ∀ i, ¬Relation.TransGen g.HasEdge i i

def LeadsToCycle (g : Graph) (i : Nat) : Prop :=
  ∃ j, g.Reaches i j ∧ Relation.TransGen g.HasEdge j j

def leaves (g : Graph) : List Nat :=
  (List.range g.size).filter fun i => (g.dependencies i).isEmpty

/-- All edges lead to lower layers, and from every layer but the lowest one, each node has an edge
into the layer right below. -/
structure IsStacked (g : Graph) (layers : List (List Nat)) : Prop where
  below : ∀ (k : Nat) (layer : List Nat), layers[k]? = some layer → ∀ i ∈ layer, ∀ j,
    g.HasEdge i j → ∃ l < k, ∃ lower, layers[l]? = some lower ∧ j ∈ lower
  supported : ∀ (k : Nat) (lower layer : List Nat), layers[k]? = some lower →
    layers[k + 1]? = some layer → ∀ i ∈ layer, ∃ j ∈ lower, g.HasEdge i j

/-- Every node stands in one layer, at the height of the longest path from it, and the nodes of a
layer are sorted by name. -/
structure IsLayeredByHeight (g : Graph) (layers : List (List Nat)) : Prop extends
    g.IsStacked layers where
  nonempty : [] ∉ layers
  nodup : layers.flatten.Nodup
  mem_iff : ∀ i, i ∈ layers.flatten ↔ i < g.size
  height : ∀ (k : Nat) (layer : List Nat), layers[k]? = some layer → ∀ i ∈ layer,
    IsGreatest {length | g.HasPath i length} k
  sorted : ∀ layer ∈ layers, layer.Pairwise fun i j => ∀ m n, g.nodes[i]? = some m →
    g.nodes[j]? = some n → (compare m.reference.name n.reference.name).isLE = true

/-- A list of references is that of the nodes from which a cycle can be reached, in the order of
their indexes. -/
def ListsStuck (g : Graph) (path : List Reference) : Prop :=
  ∃ stuck : List Nat, stuck.Pairwise (· < ·) ∧
    (∀ i, i ∈ stuck ↔ i < g.size ∧ g.LeadsToCycle i) ∧
    List.Forall₂ (fun i r => ∃ n, g.nodes[i]? = some n ∧ n.reference = r) stuck path

/-- What the layers of a graph tell about it. -/
structure LayersAreExact (g : Graph) : Prop where
  /-- No count of dependencies ahead is lowered below zero. -/
  countdown : g.countdown? g.initialPending g.leaves =
    some (g.layersFrom g.initialPending g.leaves)
  ok_iff : (∃ layers, g.layers = .ok layers) ↔ g.IsAcyclic
  layered : ∀ layers, g.layers = .ok layers → g.IsLayeredByHeight layers
  stuck : ∀ e, g.layers = .error e → ∃ path, e = .cycle path ∧ g.ListsStuck path

variable {g : Graph} {settled pending released : List Nat} {layers : List (List Nat)}
  {layer rest : List Nat} {i j k : Nat}

section Runs

/-- What is released comes into the next layer. -/
theorem getElem?_layersFrom_zero (hrun : g.layersFrom pending released = (layers, rest))
    (hlayer : layers[0]? = some layer) : layer = g.sortByName released := by
  rw [layersFrom] at hrun
  split at hrun
  · obtain ⟨rfl, -⟩ := Prod.mk.inj hrun
    cases hlayer
  · obtain ⟨rfl, -⟩ := Prod.mk.inj hrun
    exact (Option.some.inj hlayer).symm

/-- A node is released with the last of its dependencies, so that it has an edge into the layer
right below its own. -/
theorem IsSettling.exists_hasEdge (h : g.IsSettling settled pending released)
    (hrun : g.layersFrom pending released = (layers, rest)) {lower : List Nat}
    (hlower : layers[k]? = some lower) (hlayer : layers[k + 1]? = some layer) (hi : i ∈ layer) :
    ∃ j ∈ lower, g.HasEdge i j := by
  induction pending, released using layersFrom.induct (g := g)
    generalizing settled layers rest k with
  | case1 pending released hempty =>
    rw [layersFrom, if_pos hempty] at hrun
    obtain ⟨rfl, -⟩ := Prod.mk.inj hrun
    cases hlower
  | case2 pending released hempty first progress later final =>
    rename_i hnext ih
    rw [layersFrom_cons hempty rfl hnext] at hrun
    obtain ⟨rfl, rfl⟩ := Prod.mk.inj hrun
    cases k with
    | succ k => exact ih (h.round rfl rfl) hnext hlower hlayer
    | zero =>
      obtain rfl : first = lower := Option.some.inj hlower
      obtain rfl := getElem?_layersFrom_zero hnext hlayer
      have hfirst : first.Nodup := nodup_sortByName (List.nodup_append.mp h.nodup).2.1
      obtain ⟨count, -, hpos, hle⟩ :=
        (g.mem_released_settleAll hfirst pending i).mp (mem_sortByName.mp hi)
      obtain ⟨e, he, hkind⟩ := List.countP_pos_iff.mp (Nat.lt_of_lt_of_le hpos hle)
      rw [Bool.and_eq_true, beq_iff_eq, List.contains_iff_mem] at hkind
      exact ⟨e.target, hkind.2, e, he, hkind.1, rfl⟩

/-- Every layer consists of what a round has released, sorted by name. -/
theorem exists_released (hrun : g.layersFrom pending released = (layers, rest)) :
    ∀ layer ∈ layers, ∃ nodes, nodes ≠ [] ∧ layer = g.sortByName nodes := by
  induction pending, released using layersFrom.induct (g := g) generalizing layers rest with
  | case1 pending released hempty =>
    rw [layersFrom, if_pos hempty] at hrun
    obtain ⟨rfl, -⟩ := Prod.mk.inj hrun
    simp
  | case2 pending released hempty first progress later final =>
    rename_i hnext ih
    rw [layersFrom_cons hempty rfl hnext] at hrun
    obtain ⟨rfl, -⟩ := Prod.mk.inj hrun
    intro layer hlayer
    rcases List.mem_cons.mp hlayer with rfl | hlater
    · exact ⟨released, by simpa using hempty, rfl⟩
    · exact ih hnext layer hlater

private theorem pairwise_sortByName (g : Graph) (nodes : List Nat) :
    (g.sortByName nodes).Pairwise fun i j => ∀ m n, g.nodes[i]? = some m →
      g.nodes[j]? = some n → (compare m.reference.name n.reference.name).isLE = true := by
  have hsorted := pairwise_mergeSort_isLE
    (compareOn fun i => g.nodes[i]?.map (·.reference.name)) nodes
  refine hsorted.imp fun {i j} hle m n hm hn => ?_
  rw [compareOn, hm, hn] at hle
  exact hle

/-- The layers of a whole run are stacked. -/
theorem isStacked_of_layersFrom
    (hrun : g.layersFrom g.initialPending g.leaves = (layers, rest)) : g.IsStacked layers where
  below := by
    intro k layer hlayer i hi j hij
    obtain ⟨-, hbelow⟩ := layersFrom_spec (IsSettling.initial g) hrun
    obtain ⟨hk, hget⟩ := List.getElem?_eq_some_iff.mp hlayer
    have hsplit : layers = layers.take k ++ layer :: layers.drop (k + 1) := by
      rw [← hget, ← List.drop_eq_getElem_cons hk, List.take_append_drop]
    have hj := hbelow _ _ _ hsplit i hi j hij
    rw [List.nil_append] at hj
    obtain ⟨lower, hlower, hmem⟩ := List.mem_flatten.mp hj
    obtain ⟨l, hl⟩ := List.mem_iff_getElem?.mp hlower
    rw [List.getElem?_take] at hl
    split at hl
    · exact ⟨l, ‹_›, lower, hl, hmem⟩
    · cases hl
  supported := by
    intro k lower layer hlower hlayer i hi
    exact (IsSettling.initial g).exists_hasEdge hrun hlower hlayer hi

end Runs

namespace IsStacked

variable (h : g.IsStacked layers)
include h

private theorem le_of_hasPath
    {length : Nat} (hpath : g.HasPath i length) (hlayer : layers[k]? = some layer)
    (hi : i ∈ layer) : length ≤ k := by
  induction hpath generalizing k layer with
  | stop i => exact Nat.zero_le k
  | step hedge hpath ih =>
    obtain ⟨l, hl, lower, hlower, hmem⟩ := h.below k layer hlayer _ hi _ hedge
    have hle := ih hlower hmem
    omega

private theorem hasPath (hlayer : layers[k]? = some layer) (hi : i ∈ layer) : g.HasPath i k := by
  induction k generalizing i layer with
  | zero => exact .stop i
  | succ k ih =>
    have hk : k < layers.length := by
      have := (List.getElem?_eq_some_iff.mp hlayer).1
      omega
    obtain ⟨j, hj, hij⟩ := h.supported k _ layer (List.getElem?_eq_getElem hk) hlayer i hi
    exact .step hij (ih (List.getElem?_eq_getElem hk) hj)

private theorem isGreatest (hlayer : layers[k]? = some layer) (hi : i ∈ layer) :
    IsGreatest {length | g.HasPath i length} k :=
  ⟨h.hasPath hlayer hi, fun _ hpath => h.le_of_hasPath hpath hlayer hi⟩

private theorem mem_of_reaches (hij : g.Reaches i j) (hi : i ∈ layers.flatten) :
    j ∈ layers.flatten := by
  induction hij with
  | refl => exact hi
  | tail _ hedge ih =>
    obtain ⟨layer, hlayer, hmem⟩ := List.mem_flatten.mp ih
    obtain ⟨k, hk⟩ := List.mem_iff_getElem?.mp hlayer
    obtain ⟨l, -, lower, hlower, hj⟩ := h.below k layer hk _ hmem _ hedge
    exact List.mem_flatten.mpr ⟨lower, List.mem_of_getElem? hlower, hj⟩

end IsStacked

private theorem exists_longer_path (hij : Relation.TransGen g.HasEdge i j) {length : Nat}
    (hpath : g.HasPath j length) : ∃ longer > length, g.HasPath i longer := by
  induction hij using Relation.TransGen.head_induction_on with
  | single hedge => exact ⟨length + 1, Nat.lt_succ_self length, .step hedge hpath⟩
  | head hedge _ ih =>
    obtain ⟨longer, hlonger, hpath⟩ := ih
    exact ⟨longer + 1, Nat.lt_succ_of_lt hlonger, .step hedge hpath⟩

/-- No cycle can be reached from a layer: the paths from its nodes are of bounded length. -/
theorem IsStacked.not_leadsToCycle (h : g.IsStacked layers) (hi : i ∈ layers.flatten) :
    ¬g.LeadsToCycle i := by
  rintro ⟨j, hreaches, hcycle⟩
  obtain ⟨layer, hlayer, hj⟩ := List.mem_flatten.mp (h.mem_of_reaches hreaches hi)
  obtain ⟨k, hk⟩ := List.mem_iff_getElem?.mp hlayer
  obtain ⟨longer, hlonger, hpath⟩ := exists_longer_path hcycle (h.hasPath hk hj)
  have hle := h.le_of_hasPath hpath hk hj
  omega

/-- In a finite graph, a node from which one can always go on leads to a cycle. -/
theorem leadsToCycle_of_forall {P : Nat → Prop} (hsize : ∀ i, P i → i < g.size)
    (hnext : ∀ i, P i → ∃ j, P j ∧ g.HasEdge i j) (hi : P i) : g.LeadsToCycle i := by
  by_contra hnone
  let r (a b : Fin g.size) : Prop := g.Reaches i b ∧ Relation.TransGen g.HasEdge b a
  have htrans : IsTrans (Fin g.size) r := ⟨fun a b c hab hbc => ⟨hbc.1, hbc.2.trans hab.2⟩⟩
  have hirrefl : Std.Irrefl r := ⟨fun a haa => hnone ⟨a, haa⟩⟩
  have hwf : WellFounded r := Finite.wellFounded_of_trans_of_irrefl r
  have hend : ∀ a : Fin g.size, P a → ¬g.Reaches i a := by
    intro a
    induction a using hwf.induction with
    | h a ih =>
      intro ha hreaches
      obtain ⟨j, hj, hedge⟩ := hnext a ha
      exact ih ⟨j, hsize j hj⟩ ⟨hreaches, .single hedge⟩ hj (hreaches.tail hedge)
  exact hend ⟨i, hsize i hi⟩ hi .refl

/-- Without released nodes, every node that is not settled has an edge to another one. -/
theorem IsSettling.leadsToCycle (h : g.IsSettling settled pending []) (hinside : g.EdgesInside)
    (hi : i < g.size) (hstuck : i ∉ settled) : g.LeadsToCycle i := by
  refine leadsToCycle_of_forall (P := fun a => a < g.size ∧ a ∉ settled) (fun a ha => ha.1)
    (fun a ha => ?_) ⟨hi, hstuck⟩
  have hcount : pending[a]? ≠ some 0 := by
    rw [Ne, ← h.mem_iff]
    simpa using ha.2
  rw [h.count, if_pos ha.1, Ne, Option.some.injEq] at hcount
  obtain ⟨e, he, hkind⟩ := List.countP_pos_iff.mp (Nat.pos_of_ne_zero hcount)
  rw [Bool.and_eq_true, beq_iff_eq] at hkind
  exact ⟨e.target, ⟨(hinside e he).2, by simpa using hkind.2⟩, e, he, hkind.1, rfl⟩

private theorem forall₂_filter_range {α : Type} (p : α → Bool) (l : List α) :
    List.Forall₂ (fun i a => l[i]? = some a)
      ((List.range l.length).filter fun i => l[i]?.any p) (l.filter p) := by
  have hrange : l.map some = (List.range l.length).map (l[·]?) := by
    refine List.ext_getElem (by simp) fun i hi hi' => ?_
    simp
  have hfilter := congrArg (List.filter (Option.any p)) hrange
  rw [List.filter_map, List.filter_map] at hfilter
  have heq : List.Forall₂ Eq (((List.range l.length).filter fun i => l[i]?.any p).map (l[·]?))
      ((l.filter p).map some) := by
    rw [List.forall₂_eq_eq_eq]
    exact hfilter.symm
  exact List.forall₂_map_right_iff.mp (List.forall₂_map_left_iff.mp heq)

private theorem layers_of_layersFrom
    (hrun : g.layersFrom g.initialPending g.leaves = (layers, rest)) :
    g.layers =
      if layers.flatten.length < g.size then
        .error (.cycle (((g.nodes.zip rest).filter fun p => decide (0 < p.2)).map (·.1.reference)))
      else .ok layers := by
  unfold leaves at hrun
  rw [Graph.layers, hrun]

private theorem isLayeredByHeight_of_layers (h : g.layers = .ok layers) :
    g.IsLayeredByHeight layers := by
  have hlayering := isLayering_of_layers h
  rw [layers_of_layersFrom (Prod.eta _).symm] at h
  split at h
  · cases h
  · obtain rfl := Except.ok.inj h
    have hstacked := isStacked_of_layersFrom (g := g) (Prod.eta _).symm
    have hrun := Prod.eta (g.layersFrom g.initialPending g.leaves)
    have hreleased := exists_released hrun.symm
    refine
      { hstacked with
        nonempty := fun hempty => ?_
        nodup := hlayering.nodup
        mem_iff := hlayering.mem_iff
        height := fun k layer hlayer i hi => hstacked.isGreatest hlayer hi
        sorted := fun layer hlayer => ?_ }
    · obtain ⟨nodes, hnodes, hsorted⟩ := hreleased [] hempty
      obtain ⟨i, hi⟩ := List.exists_mem_of_ne_nil nodes hnodes
      have hmem : i ∈ g.sortByName nodes := mem_sortByName.mpr hi
      rw [← hsorted] at hmem
      cases hmem
    · obtain ⟨nodes, -, rfl⟩ := hreleased layer hlayer
      exact g.pairwise_sortByName nodes

/-- When a run ends, the nodes that stand in no layer are those that lead to a cycle. -/
theorem not_mem_layers_iff (hinside : g.EdgesInside)
    (hrun : g.layersFrom g.initialPending g.leaves = (layers, rest)) (hi : i < g.size) :
    i ∉ layers.flatten ↔ g.LeadsToCycle i := by
  constructor
  · obtain ⟨hfinal, -⟩ := layersFrom_spec (IsSettling.initial g) hrun
    rw [List.nil_append] at hfinal
    exact hfinal.leadsToCycle hinside hi
  · intro hcycle hmem
    exact (isStacked_of_layersFrom hrun).not_leadsToCycle hmem hcycle

/-- Those nodes are listed by the counts that remain. -/
theorem listsStuck_of_layersFrom (hinside : g.EdgesInside)
    (hrun : g.layersFrom g.initialPending g.leaves = (layers, rest)) :
    g.ListsStuck
      (((g.nodes.zip rest).filter fun p => decide (0 < p.2)).map (·.1.reference)) := by
  obtain ⟨hfinal, -⟩ := layersFrom_spec (IsSettling.initial g) hrun
  rw [List.nil_append] at hfinal
  have hlength : rest.length = g.size := by
    have hiff : ∀ i, rest.length ≤ i ↔ g.size ≤ i := by
      intro i
      rw [← List.getElem?_eq_none_iff, hfinal.count i]
      split <;> simp <;> omega
    exact Nat.le_antisymm ((hiff _).mpr (Nat.le_refl _)) ((hiff _).mp (Nat.le_refl _))
  have hzip : (g.nodes.zip rest).length = g.size := by
    rw [List.length_zip, hlength]
    exact Nat.min_self _
  refine ⟨(List.range (g.nodes.zip rest).length).filter fun i =>
    (g.nodes.zip rest)[i]?.any fun p => decide (0 < p.2), ?_, fun i => ?_, ?_⟩
  · exact List.pairwise_lt_range.filter _
  · rw [List.mem_filter, List.mem_range, hzip]
    refine and_congr_right fun hi => ?_
    rw [← not_mem_layers_iff hinside hrun hi]
    -- a node is settled just if its count has come down to zero
    obtain ⟨n, hn⟩ := exists_getElem?_of_lt_size hi
    have hcount := hfinal.count i
    rw [if_pos hi] at hcount
    have hsettled := hfinal.mem_iff i
    rw [hcount] at hsettled
    have hpair : (g.nodes.zip rest)[i]? =
        some (n, g.edgesTo i fun j => !layers.flatten.contains j) :=
      List.getElem?_zip_eq_some.mpr ⟨hn, hcount⟩
    rw [hpair, Option.any_some, decide_eq_true_iff, Nat.pos_iff_ne_zero]
    simpa using hsettled.not.symm
  · refine List.forall₂_map_right_iff.mpr ((forall₂_filter_range _ _).imp fun i p hp => ?_)
    obtain ⟨hnode, -⟩ := List.getElem?_zip_eq_some.mp hp
    exact ⟨p.1, hnode, rfl⟩

theorem exists_layers_iff (hinside : g.EdgesInside) :
    (∃ layers, g.layers = .ok layers) ↔ g.IsAcyclic := by
  refine ⟨?_, fun hacyclic => ?_⟩
  · rintro ⟨layers, h⟩ i hcycle
    have hlayered := isLayeredByHeight_of_layers h
    have hi : i < g.size := by
      obtain ⟨j, ⟨e, he, rfl, -⟩, -⟩ := Relation.TransGen.head'_iff.mp hcycle
      exact (hinside e he).1
    exact hlayered.not_leadsToCycle ((hlayered.mem_iff i).mpr hi) ⟨i, .refl, hcycle⟩
  · -- without a cycle, all nodes stand in layers
    have hrun := (Prod.eta (g.layersFrom g.initialPending g.leaves)).symm
    have hlayers := layers_of_layersFrom hrun
    have hall : List.range g.size ⊆ (g.layersFrom g.initialPending g.leaves).1.flatten := by
      intro i hi
      by_contra hmem
      obtain ⟨j, -, hcycle⟩ :=
        (not_mem_layers_iff hinside hrun (List.mem_range.mp hi)).mp hmem
      exact hacyclic j hcycle
    have hle := (List.nodup_range.subperm hall).length_le
    rw [List.length_range] at hle
    rw [if_neg (Nat.not_lt.mpr hle)] at hlayers
    exact ⟨_, hlayers⟩

/-- Layers are found just if there is no cycle. They then stand at the heights of their nodes, and
otherwise the nodes that lead to a cycle are listed. -/
theorem layersAreExact_of_edgesInside (hinside : g.EdgesInside) : g.LayersAreExact where
  countdown := (IsSettling.initial g).countdown?_eq hinside
  ok_iff := exists_layers_iff hinside
  layered layers h := isLayeredByHeight_of_layers h
  stuck e h := by
    have hrun := (Prod.eta (g.layersFrom g.initialPending g.leaves)).symm
    rw [layers_of_layersFrom hrun] at h
    split at h
    · obtain rfl := Except.error.inj h
      exact ⟨_, rfl, listsStuck_of_layersFrom hinside hrun⟩
    · cases h

/-- A package that needs a library, and twice a tool that the library needs too. The tool may need
itself. -/
def ofTool (needsItself : Bool) : Graph :=
  let node (name : String) : Node := .new (.ofTexts name "1.0") none
  let edge (source target : Nat) : Edge := ⟨source, target, .exact (.ofText "1.0"), true, 0⟩
  ⟨[node "app", node "lib", node "tool"],
    [edge 0 1, edge 0 2, edge 0 2, edge 1 2] ++ if needsItself then [edge 2 2] else []⟩

theorem layersAreExact_ofTool :
    (ofTool false).layers = .ok [[2], [1], [0]] ∧
      (ofTool true).layers = .error (.cycle
        [.ofTexts "app" "1.0", .ofTexts "lib" "1.0", .ofTexts "tool" "1.0"]) ∧
      ∀ needsItself, (ofTool needsItself).EdgesInside ∧ (ofTool needsItself).LayersAreExact := by
  refine ⟨by decide +kernel, by decide +kernel, fun needsItself => ?_⟩
  have hinside : (ofTool needsItself).EdgesInside := by
    cases needsItself <;> simp [EdgesInside, ofTool, size]
  exact ⟨hinside, layersAreExact_of_edgesInside hinside⟩

end Provision.Graph
