import Provision.Proofs.Graph.Pass
import Provision.Propagation

/-!
What the two last passes do to a node, in terms of the graph that they end with. A node takes over
the reason that its dependencies end with, and it is skipped on account of what its dependents end
with: each pass solves its own equation.
-/

namespace Provision

/-- A node that takes over a reason, if there is one: virtual nodes and nodes that have a reason
already stay as they are. -/
def Node.inheriting (policy : BuildPolicy) (reason? : Option InvalidReason) (n : Node) : Node :=
  match reason? with
  | some reason => if n.isVirtual || n.invalid?.isSome then n else n.invalidate policy reason
  | none => n

def Node.skippedIf (condition : Bool) (n : Node) : Node :=
  if condition then { n with status? := some .skip } else n

/-- Two nodes have the same status, and the same binary if it rests on one. -/
structure Node.SameBinary (n m : Node) : Prop where
  status_eq : m.status? = n.status?
  fallback_eq : m.fallback? = n.fallback?
  remote_eq : m.remote? = n.remote?

namespace Node

variable {n : Node} {policy : BuildPolicy} {reason : InvalidReason} {reason? : Option InvalidReason}
  {condition : Bool}

private theorem SameBinary.refl (n : Node) : n.SameBinary n :=
  ⟨rfl, rfl, rfl⟩

@[simp]
theorem inheriting_none : n.inheriting policy none = n :=
  rfl

theorem inheriting_of_virtual (hvirtual : n.isVirtual = true) :
    n.inheriting policy reason? = n := by
  unfold inheriting
  cases reason? <;> simp [hvirtual]

theorem inheriting_of_invalid (hinvalid : n.invalid?.isSome = true) :
    n.inheriting policy reason? = n := by
  unfold inheriting
  cases reason? <;> simp [hinvalid]

theorem inheriting_of_valid (hpackage : n.isVirtual = false) (hvalid : n.invalid? = none) :
    n.inheriting policy (some reason) = n.invalidate policy reason := by
  simp [inheriting, hpackage, hvalid]

@[simp]
theorem invalid?_invalidate : (n.invalidate policy reason).invalid? = some reason := by
  unfold invalidate
  split <;> rfl

/-- What is valid in the end has not taken over anything. -/
theorem inheriting_eq_of_valid (h : (n.inheriting policy reason?).invalid? = none) :
    n.inheriting policy reason? = n := by
  unfold inheriting at h ⊢
  split
  · split
    · rfl
    · rename_i hvalid
      simp [hvalid] at h
  · rfl

/-- A node that takes over a reason gives up its binary for good, or keeps its status. -/
theorem sameBinary_inheriting_or (n : Node) (policy : BuildPolicy)
    (reason? : Option InvalidReason) :
    n.SameBinary (n.inheriting policy reason?) ∨
      (n.inheriting policy reason?).status? = some .invalid ∧
        (n.inheriting policy reason?).fallback? = none ∧
        (n.inheriting policy reason?).remote? = none := by
  unfold inheriting
  split
  · split
    · exact .inl (.refl n)
    · unfold invalidate
      split
      · exact .inl ⟨rfl, rfl, rfl⟩
      · exact .inr ⟨rfl, rfl, rfl⟩
  · exact .inl (.refl n)

@[simp]
theorem invalid?_skippedIf : (n.skippedIf condition).invalid? = n.invalid? := by
  cases condition <;> rfl

@[simp]
theorem fallback?_skippedIf : (n.skippedIf condition).fallback? = n.fallback? := by
  cases condition <;> rfl

@[simp]
theorem remote?_skippedIf : (n.skippedIf condition).remote? = n.remote? := by
  cases condition <;> rfl

@[simp]
theorem storeErrors_skippedIf : (n.skippedIf condition).storeErrors = n.storeErrors := by
  cases condition <;> rfl

@[simp]
theorem storeErrors_invalidate : (n.invalidate policy reason).storeErrors = n.storeErrors := by
  unfold invalidate
  split <;> rfl

@[simp]
theorem storeErrors_inheriting : (n.inheriting policy reason?).storeErrors = n.storeErrors := by
  unfold inheriting
  split
  · split <;> simp
  · rfl

@[simp]
theorem skippedIf_skippedIf :
    (n.skippedIf condition).skippedIf condition = n.skippedIf condition := by
  cases condition <;> rfl

theorem status?_skippedIf :
    (n.skippedIf condition).status? = if condition then some .skip else n.status? := by
  cases condition <;> rfl

end Node

namespace Graph

variable {g g' : Graph} {policy : BuildPolicy} {layers : List (List Nat)} {i : Nat} {n : Node}

theorem getElem?_modifyNode_self {f : Node → Node} (h : g.nodes[i]? = some n) :
    (g.modifyNode i f).nodes[i]? = some (f n) := by
  simp [modifyNode, List.getElem?_modify_eq, h]

section Propagating

private theorem differsAt_propagateAt (i : Nat) (g g' : Graph) (h : propagateAt policy g i = g') :
    DiffersAt i g g' := by
  rw [← h, propagateAt]
  split
  · split
    · exact .refl i g
    · exact differsAt_modifyNode i g _
  · exact .refl i g

private theorem getElem?_propagateAt (h : g.nodes[i]? = some n) :
    (propagateAt policy g i).nodes[i]? = some (n.inheriting policy (g.inheritedReason? i)) := by
  simp only [propagateAt, h, Node.inheriting]
  cases g.inheritedReason? i with
  | none => exact h
  | some reason =>
    dsimp only
    split
    · exact h
    · exact getElem?_modifyNode_self h

private theorem inheritedReason?_congr (hedges : g'.edges = g.edges)
    (hnodes : ∀ j, g.HasEdge i j → g'.nodes[j]? = g.nodes[j]?) :
    g'.inheritedReason? i = g.inheritedReason? i := by
  have hdependencies : g'.dependencies i = g.dependencies i := by
    simp only [dependencies, hedges]
  simp only [inheritedReason?, hdependencies, ← List.head?_filterMap]
  congr 1
  refine List.filterMap_congr fun e he => ?_
  rw [hnodes e.target (mem_targets_iff.mp (List.mem_map_of_mem he))]

theorem propagateInvalid_frame (g : Graph) (policy : BuildPolicy) (layers : List (List Nat)) :
    (g.propagateInvalid policy layers).edges = g.edges ∧
      (g.propagateInvalid policy layers).size = g.size := by
  have hpass := pass_foldl (propagateAt policy) layers.flatten g
  obtain ⟨hedges, hsize, -⟩ := hpass.frame differsAt_propagateAt
  exact ⟨hedges, hsize⟩

/-- When invalidity has moved up, every node has taken over what its dependencies have come to. -/
theorem getElem?_propagateInvalid (policy : BuildPolicy) (hlayering : g.IsLayering layers)
    (hn : g.nodes[i]? = some n) : (g.propagateInvalid policy layers).nodes[i]? =
      some (n.inheriting policy ((g.propagateInvalid policy layers).inheritedReason? i)) := by
  have hpass := pass_foldl (propagateAt policy) layers.flatten g
  obtain ⟨g₁, g₂, rfl, hedges, hold, hnew, hdirect, -⟩ := hlayering.exists_visit
    differsAt_propagateAt hpass (lt_size_of_getElem? hn)
  have hframe := (g.propagateInvalid_frame policy layers).1
  rw [hn] at hold
  rw [getElem?_propagateAt hold] at hnew
  refine hnew.symm.trans ?_
  rw [inheritedReason?_congr (g := g.propagateInvalid policy layers) (hedges.trans hframe.symm)]
  intro j hj
  refine hdirect j ?_
  rwa [HasEdge, ← hframe]

end Propagating

section Skipping

private theorem differsAt_skipAt (i : Nat) (g g' : Graph) (h : skipAt g i = g') :
    DiffersAt i g g' := by
  rw [← h, skipAt]
  split
  · exact differsAt_modifyNode i g _
  · exact .refl i g

private theorem differsAt_skipRoot (g : Graph) : DiffersAt 0 g g.skipRoot := by
  unfold skipRoot
  split
  · exact differsAt_modifyNode 0 g _
  · exact .refl 0 g

private theorem getElem?_skipRoot (h : g.nodes[0]? = some n) :
    g.skipRoot.nodes[0]? = some (n.skippedIf n.isVirtual) := by
  unfold skipRoot Node.skippedIf
  simp only [h, Option.any_some]
  split
  · exact getElem?_modifyNode_self h
  · exact h

private theorem getElem?_skipAt (h : g.nodes[i]? = some n) :
    (skipAt g i).nodes[i]? =
      some (n.skippedIf (i != 0 && n.invalid?.isNone && g.isUnneeded i)) := by
  unfold skipAt Node.skippedIf
  simp only [h, Option.any_some]
  split
  · exact getElem?_modifyNode_self h
  · exact h

theorem isUnneeded_congr (hedges : g'.edges = g.edges)
    (hnodes : ∀ j, g.HasEdge j i → g'.nodes[j]? = g.nodes[j]?) :
    g'.isUnneeded i = g.isUnneeded i := by
  have hdependents : g'.dependents i = g.dependents i := by
    simp only [dependents, hedges]
  simp only [isUnneeded, hdependents]
  congr 1
  rw [Bool.eq_iff_iff, List.all_eq_true, List.all_eq_true]
  refine forall₂_congr fun e he => ?_
  obtain ⟨hmem, htarget⟩ := mem_dependents.mp he
  rw [isIdleEdge, isIdleEdge, hnodes e.source ⟨e, hmem, rfl, htarget⟩]

/-- The node of an index has its own binary or needs none. -/
def IdleAt (g : Graph) (i : Nat) : Prop :=
  ∃ n, g.nodes[i]? = some n ∧ (n.status.hasBinary = true ∨ n.status = .skip)

theorem isIdleEdge_iff {e : Edge} :
    g.isIdleEdge e = true ↔ e.isTransitive = false ∧ g.IdleAt e.source := by
  simp [isIdleEdge, IdleAt, Option.any_eq_true]

/-- A node that nobody needs stays so as long as its idle dependents stay idle. -/
theorem isUnneeded_of_idle (hedges : g'.edges = g.edges)
    (hidle : ∀ j, g.HasEdge j i → g.IdleAt j → g'.IdleAt j) (h : g.isUnneeded i = true) :
    g'.isUnneeded i = true := by
  have hdependents : g'.dependents i = g.dependents i := by
    simp only [dependents, hedges]
  simp only [isUnneeded, hdependents, Bool.and_eq_true, List.all_eq_true] at h ⊢
  refine ⟨h.1, fun e he => ?_⟩
  obtain ⟨hmem, htarget⟩ := mem_dependents.mp he
  obtain ⟨hplain, hsource⟩ := isIdleEdge_iff.mp (h.2 e he)
  exact isIdleEdge_iff.mpr ⟨hplain, hidle e.source ⟨e, hmem, rfl, htarget⟩ hsource⟩

theorem markSkipped_frame (g : Graph) (layers : List (List Nat)) :
    (g.markSkipped layers).edges = g.edges ∧ (g.markSkipped layers).size = g.size := by
  have hpass := pass_foldl skipAt layers.reverse.flatten g.skipRoot
  obtain ⟨hedges, hsize, -⟩ := hpass.frame differsAt_skipAt
  have hroot := differsAt_skipRoot g
  exact ⟨hedges.trans hroot.edges_eq, hsize.trans hroot.size_eq⟩

/-- The condition under which the passes skip a node, as its graph ends up. -/
def isSkipped (g : Graph) (i : Nat) (n : Node) : Bool :=
  if i = 0 then n.isVirtual else n.invalid?.isNone && g.isUnneeded i

theorem isSkipped_of_invalid (hpackage : n.isVirtual = false)
    (hinvalid : n.invalid?.isSome = true) :
    g.isSkipped i n = false := by
  unfold isSkipped
  split
  · exact hpackage
  · rw [Option.isNone_eq_false_iff.mpr hinvalid, Bool.false_and]

/-- When skipping is over, every node is skipped on account of what its dependents have come to. -/
theorem getElem?_markSkipped (hlayering : g.IsLayering layers) (hn : g.nodes[i]? = some n) :
    (g.markSkipped layers).nodes[i]? =
      some (n.skippedIf ((g.markSkipped layers).isSkipped i n)) := by
  have hroot := differsAt_skipRoot g
  have hlayering' := hlayering.congr hroot.edges_eq hroot.size_eq
  have hi : i < g.skipRoot.size := hroot.size_eq ▸ lt_size_of_getElem? hn
  have hpass := pass_foldl skipAt layers.reverse.flatten g.skipRoot
  obtain ⟨g₁, g₂, rfl, hedges, hold, hnew, hdependents⟩ := hlayering'.exists_visit_reverse
    differsAt_skipAt hpass hi
  by_cases hzero : i = 0
  · subst hzero
    rw [getElem?_skipRoot hn] at hold
    rw [getElem?_skipAt hold] at hnew
    refine hnew.symm.trans ?_
    simp [isSkipped, Node.skippedIf]
  · rw [hroot.node_eq i hzero, hn] at hold
    rw [getElem?_skipAt hold] at hnew
    have hframe := (g.markSkipped_frame layers).1
    have hunneeded : g₁.isUnneeded i = (g.markSkipped layers).isUnneeded i := by
      refine isUnneeded_congr ((hedges.trans hroot.edges_eq).trans hframe.symm) fun j hj => ?_
      refine hdependents j ?_
      rwa [HasEdge, hroot.edges_eq, ← hframe]
    refine hnew.symm.trans ?_
    have hroot : (i != 0) = true := bne_iff_ne.mpr hzero
    rw [isSkipped, if_neg hzero, hunneeded, hroot, Bool.true_and]

end Skipping

end Graph

end Provision
