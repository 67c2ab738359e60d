import Provision.Fallible
import Provision.Proofs.Graph.Layering

/-!
Passes over a graph: nodes are visited one after the other, and each visit changes the node in hand
alone. A visit sees the nodes before it as the pass leaves them and the nodes after it as the pass
finds them. Along layers it so sees the dependencies of its node, or with the layers reversed its
dependents, in their final state.
-/

namespace Provision.Graph

/-- Two graphs differ in the node of an index at most. -/
structure DiffersAt (i : Nat) (g g' : Graph) : Prop where
  edges_eq : g'.edges = g.edges
  size_eq : g'.size = g.size
  node_eq : ∀ j, j ≠ i → g'.nodes[j]? = g.nodes[j]?

/-- The visits of a pass, in order. -/
inductive Pass (visit : Nat → Graph → Graph → Prop) : List Nat → Graph → Graph → Prop
  | done (g : Graph) : Pass visit [] g g
  | step {i : Nat} {order : List Nat} {g g₁ g₂ : Graph} (hvisit : visit i g g₁)
      (hrest : Pass visit order g₁ g₂) : Pass visit (i :: order) g g₂

variable {g g' : Graph} {i : Nat} {order before after : List Nat}
  {visit : Nat → Graph → Graph → Prop}

theorem DiffersAt.refl (i : Nat) (g : Graph) : DiffersAt i g g :=
  ⟨rfl, rfl, fun _ _ => rfl⟩

theorem differsAt_modifyNode (i : Nat) (g : Graph) (f : Node → Node) :
    DiffersAt i g (g.modifyNode i f) := by
  refine ⟨rfl, List.length_modify .., fun j hj => ?_⟩
  exact List.getElem?_modify_ne f _ (Ne.symm hj)

theorem pass_foldl (f : Graph → Nat → Graph) (order : List Nat) (g : Graph) :
    Pass (fun i g₁ g₂ => f g₁ i = g₂) order g (order.foldl f g) := by
  induction order generalizing g with
  | nil => exact .done g
  | cons i order ih => exact .step rfl (ih (f g i))

theorem pass_foldlM {ε : Type} {f : Graph → Nat → Except ε Graph}
    (h : order.foldlM f g = .ok g') : Pass (fun i g₁ g₂ => f g₁ i = .ok g₂) order g g' := by
  induction order generalizing g with
  | nil =>
    cases h
    exact .done _
  | cons i order ih =>
    rw [List.foldlM_cons, bind_eq_ok_iff] at h
    obtain ⟨g₁, hstep, hrest⟩ := h
    exact .step hstep (ih hrest)

private theorem Pass.of_append (h : Pass visit (before ++ after) g g') :
    ∃ g₁, Pass visit before g g₁ ∧ Pass visit after g₁ g' := by
  induction before generalizing g with
  | nil => exact ⟨g, .done g, h⟩
  | cons i before ih =>
    cases h with
    | step hvisit hrest =>
      obtain ⟨g₁, hbefore, hafter⟩ := ih hrest
      exact ⟨g₁, .step hvisit hbefore, hafter⟩

section Local

variable (hlocal : ∀ i g g', visit i g g' → DiffersAt i g g')
include hlocal

/-- A pass keeps the edges, the number of nodes, and the nodes that it does not visit. -/
theorem Pass.frame (h : Pass visit order g g') :
    g'.edges = g.edges ∧ g'.size = g.size ∧ ∀ j ∉ order, g'.nodes[j]? = g.nodes[j]? := by
  induction h with
  | done => exact ⟨rfl, rfl, fun _ _ => rfl⟩
  | step hvisit hrest ih =>
    obtain ⟨hedges, hsize, hnodes⟩ := ih
    have hstep := hlocal _ _ _ hvisit
    refine ⟨hedges.trans hstep.edges_eq, hsize.trans hstep.size_eq, fun j hj => ?_⟩
    rw [List.mem_cons, not_or] at hj
    exact (hnodes j hj.2).trans (hstep.node_eq j hj.1)

private theorem Pass.exists_visit (h : Pass visit (before ++ i :: after) g g')
    (hnodup : (before ++ i :: after).Nodup) :
    ∃ g₁ g₂, visit i g₁ g₂ ∧ g₁.edges = g.edges ∧ g₁.nodes[i]? = g.nodes[i]? ∧
      g₂.nodes[i]? = g'.nodes[i]? ∧ ∀ j ∉ i :: after, g₁.nodes[j]? = g'.nodes[j]? := by
  obtain ⟨g₁, hbefore, hrest⟩ := h.of_append
  obtain ⟨-, hrestNodup, hdisjoint⟩ := List.nodup_append.mp hnodup
  have hi : i ∉ before := fun hmem => hdisjoint i hmem i List.mem_cons_self rfl
  obtain ⟨hedges, -, hkept⟩ := hbefore.frame hlocal
  obtain ⟨-, -, hfinal⟩ := hrest.frame hlocal
  cases hrest with
  | @step _ _ _ g₂ _ hvisit hafter =>
    obtain ⟨-, -, hlater⟩ := hafter.frame hlocal
    refine ⟨g₁, g₂, hvisit, hedges, hkept i hi, ?_, fun j hj => ?_⟩
    · exact (hlater i (List.nodup_cons.mp hrestNodup).1).symm
    · exact (hfinal j hj).symm

variable {layers : List (List Nat)}

/-- A visit of a pass along layers sees what its node depends on, at whatever distance, as the pass
leaves it. -/
theorem IsLayering.exists_visit (hlayering : g.IsLayering layers)
    (h : Pass visit layers.flatten g g') (hi : i < g.size) :
    ∃ g₁ g₂, visit i g₁ g₂ ∧ g₁.edges = g.edges ∧ g₁.nodes[i]? = g.nodes[i]? ∧
      g₂.nodes[i]? = g'.nodes[i]? ∧ (∀ j, g.HasEdge i j → g₁.nodes[j]? = g'.nodes[j]?) ∧
      ∀ j ∈ g.identityClosure i, g₁.nodes[j]? = g'.nodes[j]? := by
  obtain ⟨before, after, hsplit, hdirect, hclosed⟩ := hlayering.exists_split hi
  have hnodup := hlayering.nodup
  rw [hsplit] at h hnodup
  obtain ⟨g₁, g₂, hvisit, hedges, hold, hnew, hseen⟩ := h.exists_visit hlocal hnodup
  have hdone : ∀ j ∈ before, g₁.nodes[j]? = g'.nodes[j]? := fun j hj =>
    hseen j fun hmem => (List.nodup_append.mp hnodup).2.2 j hj j hmem rfl
  refine ⟨g₁, g₂, hvisit, hedges, hold, hnew, fun j hj => hdone j (hdirect j hj), fun j hj => ?_⟩
  exact hdone j (identityClosure_subset hclosed hdirect j hj)

/-- A visit of a pass against layers sees the dependents of its node as the pass leaves them. -/
theorem IsLayering.exists_visit_reverse (hlayering : g.IsLayering layers)
    (h : Pass visit layers.reverse.flatten g g') (hi : i < g.size) :
    ∃ g₁ g₂, visit i g₁ g₂ ∧ g₁.edges = g.edges ∧ g₁.nodes[i]? = g.nodes[i]? ∧
      g₂.nodes[i]? = g'.nodes[i]? ∧ ∀ j, g.HasEdge j i → g₁.nodes[j]? = g'.nodes[j]? := by
  obtain ⟨before, after, hsplit, hdependents⟩ := hlayering.exists_split_reverse hi
  have hnodup := hlayering.nodup_reverse
  rw [hsplit] at h hnodup
  obtain ⟨g₁, g₂, hvisit, hedges, hold, hnew, hseen⟩ := h.exists_visit hlocal hnodup
  refine ⟨g₁, g₂, hvisit, hedges, hold, hnew, fun j hji => hseen j fun hmem => ?_⟩
  have hlayered : j ∈ layers.flatten := by
    rw [← (List.reverse_perm layers).flatten.mem_iff, hsplit]
    exact List.mem_append_right before hmem
  have hbefore := hdependents j ((hlayering.mem_iff j).mp hlayered) hji
  exact (List.nodup_append.mp hnodup).2.2 j hbefore j hmem rfl

end Local

theorem IsLayering.congr {layers : List (List Nat)} (h : g.IsLayering layers)
    (hedges : g'.edges = g.edges) (hsize : g'.size = g.size) : g'.IsLayering layers := by
  refine ⟨h.nodup, fun i => ?_, fun lower layer upper heq i hi j hij => ?_⟩
  · rw [hsize]
    exact h.mem_iff i
  · refine h.below lower layer upper heq i hi j ?_
    rwa [HasEdge, ← hedges]

private theorem closureFrom_congr (hedges : g'.edges = g.edges) (queue found : List Nat) :
    g'.closureFrom queue found = g.closureFrom queue found := by
  have hexposed (i : Nat) : g'.exposed i = g.exposed i := by
    simp only [exposed, dependencies, hedges]
  induction queue, found using closureFrom.induct (g := g) with
  | case1 found => rw [closureFrom, closureFrom]
  | case2 found i rest hseen ih => rw [closureFrom, closureFrom, if_pos hseen, if_pos hseen, ih]
  | case3 found i rest hseen ih =>
    rw [closureFrom, closureFrom, if_neg hseen, if_neg hseen, hexposed, ih]

theorem identityClosure_congr (hedges : g'.edges = g.edges) (i : Nat) :
    g'.identityClosure i = g.identityClosure i := by
  simp only [identityClosure, dependencies, hedges]
  exact closureFrom_congr hedges _ _

end Provision.Graph
