import Provision.Proofs.Expansion.Soundness
import Provision.Proofs.Propagation
import Provision.Proofs.Resolution.Stages

/-!
What becomes of a single node in the course of a resolution. Every stage turns a node into the next
one by an equation of its own, in which the other nodes occur as the stage ends with them, so that
the order of the visits is out of the picture.
-/

namespace Provision

/-- Two nodes are of the same package, with the same identity. -/
structure Node.SameIdentity (n m : Node) : Prop where
  reference_eq : m.reference = n.reference
  recipe_eq : m.recipe? = n.recipe?
  requested_eq : m.requested = n.requested
  info_eq : m.info = n.info
  id_eq : m.id? = n.id?

private theorem Node.SameIdentity.trans
    {n m l : Node} (h : n.SameIdentity m) (h' : m.SameIdentity l) :
    n.SameIdentity l :=
  ⟨h'.reference_eq.trans h.reference_eq, h'.recipe_eq.trans h.recipe_eq,
    h'.requested_eq.trans h.requested_eq, h'.info_eq.trans h.info_eq, h'.id_eq.trans h.id_eq⟩

theorem Node.sameIdentity_inheriting (n : Node) (policy : BuildPolicy)
    (reason? : Option InvalidReason) : n.SameIdentity (n.inheriting policy reason?) := by
  unfold inheriting
  split
  · split
    · exact ⟨rfl, rfl, rfl, rfl, rfl⟩
    · unfold invalidate
      split <;> exact ⟨rfl, rfl, rfl, rfl, rfl⟩
  · exact ⟨rfl, rfl, rfl, rfl, rfl⟩

theorem Node.sameIdentity_skippedIf (n : Node) (condition : Bool) :
    n.SameIdentity (n.skippedIf condition) := by
  unfold skippedIf
  split <;> exact ⟨rfl, rfl, rfl, rfl, rfl⟩

namespace Graph

variable {g g' : Graph} {mode : IdentityMode} {i : Nat}

/-- The reference and the identity of a node are all that it contributes. -/
theorem contribution_eq : g.contribution mode i =
    (g.nodes[i]?.map fun n => (n.reference, n.id?)).bind fun (r, id?) =>
      (mode.render r id?).map (r.name.text, ·) := by
  unfold contribution
  cases g.nodes[i]? with
  | none => rfl
  | some n => cases hrender : mode.render n.reference n.id? <;> simp [hrender]

private theorem contributions_congr (hedges : g'.edges = g.edges)
    (hnodes : ∀ j ∈ g.identityClosure i,
      g'.nodes[j]?.map (fun n => (n.reference, n.id?)) =
        g.nodes[j]?.map fun n => (n.reference, n.id?)) :
    g'.contributions mode i = g.contributions mode i := by
  rw [contributions, contributions, identityClosure_congr hedges]
  congr 1
  refine List.filterMap_congr fun j hj => ?_
  have hnode := hnodes j hj
  rw [contribution_eq, contribution_eq, hnode]

private theorem dependencyInfos_congr (hedges : g'.edges = g.edges)
    (hnodes : ∀ j ∈ g.identityClosure i,
      g'.nodes[j]?.map (fun n => (n.reference, n.id?)) =
        g.nodes[j]?.map fun n => (n.reference, n.id?)) :
    g'.dependencyInfos i = g.dependencyInfos i := by
  rw [dependencyInfos, dependencyInfos, identityClosure_congr hedges]
  refine List.filterMap_congr fun j hj => ?_
  have hinfo := congrArg (Option.map fun p => DependencyInfo.mk p.1 p.2) (hnodes j hj)
  rwa [Option.map_map, Option.map_map] at hinfo

end Graph

namespace Resolver

variable {profile : Profile} {mode : IdentityMode} {g g' : Graph} {i : Nat} {n : Node}
  {recipe : Recipe}

private theorem configure_frame (h : configure profile g = .ok g') :
    g'.edges = g.edges ∧ g'.size = g.size := by
  simp only [configure, bind_eq_ok_iff] at h
  obtain ⟨nodes, hnodes, h⟩ := h
  cases h
  exact ⟨rfl, (getElem?_of_mapM_mapIdx_ok hnodes).1⟩

theorem exists_configured (h : configure profile g = .ok g') (hn : g.nodes[i]? = some n) :
    ∃ m, configureNode profile i n = .ok m ∧ g'.nodes[i]? = some m := by
  simp only [configure, bind_eq_ok_iff] at h
  obtain ⟨nodes, hnodes, h⟩ := h
  cases h
  exact (getElem?_of_mapM_mapIdx_ok hnodes).2 i n hn

theorem exists_requested {m : Node} (h : configureNode profile i n = .ok m) :
    ∃ requested, m = { n with requested } := by
  unfold configureNode at h
  split at h
  · cases h
    exact ⟨n.requested, rfl⟩
  · rw [bind_eq_ok_iff] at h
    obtain ⟨requested, -, hm⟩ := h
    exact ⟨requested, (Except.ok.inj hm).symm⟩

/-- A node and what its identification in a graph makes of it. -/
inductive Identifies (mode : IdentityMode) (g : Graph) (i : Nat) : Node → Node → Prop
  | virtual {n : Node} (hrecipe : n.recipe? = none) : Identifies mode g i n n
  | package {n : Node} {recipe : Recipe} {identity : Identity} {reason? : Option InvalidReason}
      (hrecipe : n.recipe? = some recipe)
      (hidentify : identifyNode mode g i n recipe = .ok (identity, reason?)) :
      Identifies mode g i n (identifiedNode identity reason? n)

namespace Identifies

variable {m : Node}

private theorem recipe_eq (h : Identifies mode g i n m) : m.recipe? = n.recipe? := by
  cases h <;> rfl

private theorem reference_eq (h : Identifies mode g i n m) : m.reference = n.reference := by
  cases h <;> rfl

private theorem of_virtual (h : Identifies mode g i n m) (hrecipe : n.recipe? = none) : m = n := by
  cases h with
  | virtual => rfl
  | package hfound =>
    rw [hrecipe] at hfound
    cases hfound

theorem of_package (h : Identifies mode g i n m) (hrecipe : n.recipe? = some recipe) :
    ∃ identity reason?, identifyNode mode g i n recipe = .ok (identity, reason?) ∧
      m = identifiedNode identity reason? n := by
  cases h with
  | virtual hnone =>
    rw [hrecipe] at hnone
    cases hnone
  | package hfound hidentify =>
    obtain rfl := Option.some.inj (hrecipe.symm.trans hfound)
    exact ⟨_, _, hidentify, rfl⟩

end Identifies

/-- An identified node is judged as its hook sees it from then on. -/
theorem exists_verdict {identity : Identity} {reason? : Option InvalidReason}
    (h : identifyNode mode g i n recipe = .ok (identity, reason?)) :
    ∃ verdict, reason? = rejection? verdict ∧
      recipe.judge (g.hookContext i (identifiedNode identity reason? n)) = .ok verdict := by
  simp only [identifyNode, bind_eq_ok_iff] at h
  obtain ⟨identity', -, verdict, hjudge, h⟩ := h
  cases h
  exact ⟨verdict, rfl, hjudge⟩

theorem differsAt_identifyIn (i : Nat) (g g' : Graph) (h : identifyIn mode g i = .ok g') :
    Graph.DiffersAt i g g' := by
  unfold identifyIn at h
  split at h
  · cases h
    exact .refl i g
  · split at h
    · cases h
      exact .refl i g
    · rw [bind_eq_ok_iff] at h
      obtain ⟨result, -, h⟩ := h
      cases h
      exact Graph.differsAt_modifyNode i g _

private theorem exists_identifies (h : identifyIn mode g i = .ok g') (hn : g.nodes[i]? = some n) :
    ∃ m, Identifies mode g i n m ∧ g'.nodes[i]? = some m := by
  simp only [identifyIn, hn] at h
  split at h
  · rename_i hrecipe
    cases h
    exact ⟨n, .virtual hrecipe, hn⟩
  · rename_i recipe hrecipe
    rw [bind_eq_ok_iff] at h
    obtain ⟨result, hidentify, h⟩ := h
    cases h
    exact ⟨_, .package hrecipe hidentify, Graph.getElem?_modifyNode_self hn⟩

private theorem Identifies.congr
    {m : Node} (h : Identifies mode g i n m) (hedges : g'.edges = g.edges)
    (hnodes : ∀ j ∈ g.identityClosure i, g'.nodes[j]? = g.nodes[j]?) :
    Identifies mode g' i n m := by
  cases h with
  | virtual hrecipe => exact .virtual hrecipe
  | package hrecipe hidentify =>
    refine .package hrecipe ?_
    have hseen : ∀ j ∈ g.identityClosure i,
        g'.nodes[j]?.map (fun n => (n.reference, n.id?)) =
          g.nodes[j]?.map fun n => (n.reference, n.id?) := by
      intro j hj
      rw [hnodes j hj]
    rw [← hidentify, identifyNode, identifyNode, Graph.contributions_congr hedges hseen,
      Graph.hookContext, Graph.hookContext, Graph.dependencyInfos_congr hedges hseen]

/-- Whether a decision is one about a node. -/
def Decides (k : DecisionContext) (g : Graph) (i : Nat) (n : Node) (d? : Option Decision) : Prop :=
  if n.isVirtual then d? = none else ∃ d, d? = some d ∧ k.decide g i n = .ok d

private theorem Decides.unique {k : DecisionContext} {d? d'? : Option Decision}
    (h : Decides k g i n d?) (h' : Decides k g i n d'?) : d? = d'? := by
  unfold Decides at h h'
  split at h
  · rw [h]
    rw [if_pos ‹_›] at h'
    exact h'.symm
  · rw [if_neg ‹_›] at h'
    obtain ⟨d, rfl, hdecide⟩ := h
    obtain ⟨d', rfl, hdecide'⟩ := h'
    rw [Except.ok.inj (hdecide.symm.trans hdecide')]

theorem decides_iff {k : DecisionContext} {d? : Option Decision} (hn : g.nodes[i]? = some n) :
    Decides k g i n d? ↔ decideAt k g i = .ok d? := by
  simp only [Decides, decideAt, hn]
  split
  · rw [Except.ok.injEq, eq_comm]
  · rw [map_eq_ok_iff]
    exact exists_congr fun d => and_comm.trans (and_congr_right fun _ => eq_comm)

theorem exists_decides {executor : Executor} {k : DecisionContext}
    {decisions : List (Option Decision)} (h : decideAll executor k g = .ok decisions)
    (hn : g.nodes[i]? = some n) : ∃ d?, Decides k g i n d? ∧ decisions[i]? = some d? := by
  have hdecide := congrArg (·[i]?) (decideAll_eq_ok_iff.mp h)
  rw [List.getElem?_map, List.getElem?_map, List.getElem?_range (Graph.lt_size_of_getElem? hn),
    Option.map_some] at hdecide
  obtain ⟨d?, hd, hdecide⟩ := Option.map_eq_some_iff.mp hdecide.symm
  exact ⟨d?, (decides_iff hn).mpr hdecide.symm, hd⟩

private theorem sameIdentity_settledNode (n : Node) (d? : Option Decision) :
    n.SameIdentity (settledNode n d?) := by
  cases d? <;> exact ⟨rfl, rfl, rfl, rfl, rfl⟩

private theorem getElem?_enter {decisions : List (Option Decision)} {d? : Option Decision}
    (hn : g.nodes[i]? = some n) (hd : decisions[i]? = some d?) :
    (enter g decisions).nodes[i]? = some (settledNode n d?) := by
  have hzip : (g.nodes.zip decisions)[i]? = some (n, d?) :=
    List.getElem?_zip_eq_some.mpr ⟨hn, hd⟩
  simp [enter, hzip]

namespace Stages

variable {resolver : Resolver} {request : ResolveRequest} (s : Stages resolver request)

theorem isLayering : s.built.IsLayering s.layers :=
  Graph.isLayering_of_layers s.layers_eq

theorem isSound : resolver.catalog.IsSound request.root s.built := by
  obtain ⟨-, pins, i, met, x, hrestarted, hunderway, hlast, hgraph⟩ :=
    Catalog.build_eq_ok s.build_eq
  exact hgraph ▸ Catalog.isSound_of_underway hrestarted hunderway hlast

theorem configured_frame : s.configured.edges = s.built.edges ∧ s.configured.size = s.built.size :=
  configure_frame s.configure_eq

private theorem identify_pass : Graph.Pass
    (fun i g₁ g₂ => identifyIn resolver.config.mode g₁ i = .ok g₂) s.layers.flatten
    s.configured s.identified :=
  Graph.pass_foldlM s.identify_eq

theorem identified_frame :
    s.identified.edges = s.built.edges ∧ s.identified.size = s.built.size := by
  obtain ⟨hedges, hsize, -⟩ := s.identify_pass.frame differsAt_identifyIn
  exact ⟨hedges.trans s.configured_frame.1, hsize.trans s.configured_frame.2⟩

private theorem decided_frame :
    s.decided.edges = s.built.edges ∧ s.decided.size = s.built.size := by
  refine ⟨s.identified_frame.1, ?_⟩
  have hlength := length_of_decideAll s.decide_eq
  rw [← s.identified_frame.2]
  simp [decided, enter, Graph.size, hlength]

theorem propagated_frame :
    s.propagated.edges = s.built.edges ∧ s.propagated.size = s.built.size := by
  obtain ⟨hedges, hsize⟩ := s.decided.propagateInvalid_frame request.policy s.layers
  exact ⟨hedges.trans s.decided_frame.1, hsize.trans s.decided_frame.2⟩

theorem final_frame : s.final.edges = s.built.edges ∧ s.final.size = s.built.size := by
  obtain ⟨hedges, hsize⟩ := s.propagated.markSkipped_frame s.layers
  exact ⟨hedges.trans s.propagated_frame.1, hsize.trans s.propagated_frame.2⟩

/-- The layers stay layers of every later graph. -/
theorem isLayering_of_frame {g : Graph}
    (hframe : g.edges = s.built.edges ∧ g.size = s.built.size) : g.IsLayering s.layers :=
  s.isLayering.congr hframe.1 hframe.2

def context (_ : Stages resolver request) : DecisionContext :=
  resolver.decisionContext request

/-- What becomes of the node of an index, stage by stage. -/
structure History (i : Nat) where
  built : Node
  configured : Node
  identified : Node
  decision? : Option Decision
  propagated : Node
  final : Node
  built_eq : s.built.nodes[i]? = some built
  identified_eq : s.identified.nodes[i]? = some identified
  propagated_eq : s.propagated.nodes[i]? = some propagated
  final_eq : s.final.nodes[i]? = some final
  configuresNode : configureNode request.profile i built = .ok configured
  identifies : Identifies resolver.config.mode s.identified i configured identified
  decides : Decides s.context s.identified i identified decision?
  inherits : propagated =
    (settledNode identified decision?).inheriting request.policy (s.propagated.inheritedReason? i)
  skips : final = propagated.skippedIf (s.final.isSkipped i propagated)

/-- When all nodes have been visited, the node of an index is identified among the others as they
are in the end. -/
theorem exists_identified {i : Nat} {n : Node} (hn : s.configured.nodes[i]? = some n) :
    ∃ m, Identifies resolver.config.mode s.identified i n m ∧
      s.identified.nodes[i]? = some m := by
  have hlayering := s.isLayering_of_frame s.configured_frame
  obtain ⟨g₁, g₂, hvisit, hedges, hold, hnew, -, hclosure⟩ :=
    hlayering.exists_visit differsAt_identifyIn s.identify_pass (Graph.lt_size_of_getElem? hn)
  -- the visit has seen the closure of the node as it stays
  obtain ⟨m, hidentifies, hm⟩ := exists_identifies hvisit (hold.trans hn)
  refine ⟨m, hidentifies.congr ?_ fun j hj => ?_, hnew.symm.trans hm⟩
  · exact (s.identified_frame.1.trans s.configured_frame.1.symm).trans hedges.symm
  · rw [Graph.identityClosure_congr hedges] at hj
    exact (hclosure j hj).symm

theorem exists_history {i : Nat} (hi : i < s.built.size) : Nonempty (s.History i) := by
  obtain ⟨n, hn⟩ := Graph.exists_getElem?_of_lt_size hi
  obtain ⟨m, hconfigures, hm⟩ := exists_configured s.configure_eq hn
  obtain ⟨l, hidentifies, hl⟩ := s.exists_identified hm
  obtain ⟨d?, hdecides, hd⟩ := exists_decides s.decide_eq hl
  have hpropagated := Graph.getElem?_propagateInvalid request.policy
    (s.isLayering_of_frame s.decided_frame) (getElem?_enter hl hd)
  have hfinal := Graph.getElem?_markSkipped (s.isLayering_of_frame s.propagated_frame) hpropagated
  exact ⟨⟨n, m, l, d?, _, _, hn, hl, hpropagated, hfinal, hconfigures, hidentifies, hdecides, rfl,
    rfl⟩⟩

theorem history_of_final {i : Nat} {n : Node} (hn : s.final.nodes[i]? = some n) :
    ∃ h : s.History i, h.final = n := by
  have hi : i < s.built.size := s.final_frame.2 ▸ Graph.lt_size_of_getElem? hn
  obtain ⟨h⟩ := s.exists_history hi
  exact ⟨h, Option.some.inj (h.final_eq.symm.trans hn)⟩

namespace History

variable {s} {i : Nat} (h : s.History i)

theorem sameIdentity : h.identified.SameIdentity h.final := by
  rw [h.skips, h.inherits]
  exact ((sameIdentity_settledNode ..).trans (Node.sameIdentity_inheriting ..)).trans
    (Node.sameIdentity_skippedIf ..)

/-- Nothing is known about a node that has just been configured. -/
theorem configured_eq : h.configured.reference = h.built.reference ∧
    h.configured.recipe? = h.built.recipe? ∧ h.configured.invalid? = none ∧
      h.configured.status? = none ∧ h.configured.fallback? = none ∧
        h.configured.remote? = none := by
  obtain ⟨requested, hrequested⟩ := exists_requested h.configuresNode
  have hnew := (s.isSound.entered i h.built h.built_eq).eq_new
  rw [hrequested, hnew]
  exact ⟨rfl, rfl, rfl, rfl, rfl, rfl⟩

theorem getElem?_decisions : s.decisions[i]? = some h.decision? := by
  obtain ⟨d?, hdecides, hd⟩ := exists_decides s.decide_eq h.identified_eq
  rw [hd, hdecides.unique h.decides]

theorem decide_eq_of_decision {d : Decision} (hd : h.decision? = some d) :
    s.context.decide s.identified i h.identified = .ok d := by
  have hdecides := h.decides
  unfold Decides at hdecides
  split at hdecides
  · rw [hd] at hdecides
    cases hdecides
  · obtain ⟨d', hd', hdecide⟩ := hdecides
    obtain rfl := Option.some.inj (hd.symm.trans hd')
    exact hdecide

theorem final_recipe? : h.final.recipe? = h.configured.recipe? :=
  h.sameIdentity.recipe_eq.trans h.identifies.recipe_eq

theorem reference_eq_built : h.final.reference = h.built.reference :=
  (h.sameIdentity.reference_eq.trans h.identifies.reference_eq).trans h.configured_eq.1

theorem recipe?_eq_built : h.final.recipe? = h.built.recipe? :=
  h.final_recipe?.trans h.configured_eq.2.1

end History

theorem history_of_decisions {i : Nat} {d? : Option Decision} (hd : s.decisions[i]? = some d?) :
    ∃ h : s.History i, h.decision? = d? := by
  have hlength := length_of_decideAll s.decide_eq
  have hi : i < s.built.size := by
    rw [← s.identified_frame.2, Graph.size, ← hlength]
    exact (List.getElem?_eq_some_iff.mp hd).1
  obtain ⟨h⟩ := s.exists_history hi
  exact ⟨h, Option.some.inj (h.getElem?_decisions.symm.trans hd)⟩

/-- References and identities stay as they are once the nodes have been identified. -/
theorem map_node_final (j : Nat) : s.final.nodes[j]?.map (fun n => (n.reference, n.id?)) =
    s.identified.nodes[j]?.map fun n => (n.reference, n.id?) := by
  by_cases hj : j < s.built.size
  · obtain ⟨h⟩ := s.exists_history hj
    rw [h.final_eq, h.identified_eq, Option.map_some, Option.map_some,
      h.sameIdentity.reference_eq, h.sameIdentity.id_eq]
  · have hfinal : s.final.nodes.length ≤ j := by
      have := s.final_frame.2
      unfold Graph.size at this hj
      omega
    have hidentified : s.identified.nodes.length ≤ j := by
      have := s.identified_frame.2
      unfold Graph.size at this hj
      omega
    rw [List.getElem?_eq_none hfinal, List.getElem?_eq_none hidentified]

/-- Hooks see the same in the final graph as when the nodes have just been identified. -/
theorem dependencyInfos_final (i : Nat) :
    s.final.dependencyInfos i = s.identified.dependencyInfos i :=
  Graph.dependencyInfos_congr (s.final_frame.1.trans s.identified_frame.1.symm)
    fun j _ => s.map_node_final j

theorem contributions_final (mode : IdentityMode) (i : Nat) :
    s.final.contributions mode i = s.identified.contributions mode i :=
  Graph.contributions_congr (s.final_frame.1.trans s.identified_frame.1.symm)
    fun j _ => s.map_node_final j

namespace History

variable {s} {i : Nat} (h : s.History i)

theorem hookContext_final :
    s.final.hookContext i h.final = s.identified.hookContext i h.identified := by
  rw [Graph.hookContext, Graph.hookContext, s.dependencyInfos_final, h.sameIdentity.reference_eq,
    h.sameIdentity.requested_eq, h.sameIdentity.info_eq]

/-- A virtual node is neither judged nor decided. -/
theorem of_virtual (hrecipe : h.final.recipe? = none) :
    h.identified = h.configured ∧ h.decision? = none := by
  refine ⟨h.identifies.of_virtual (h.final_recipe?.symm.trans hrecipe), ?_⟩
  have hvirtual : h.identified.isVirtual = true := by
    simp [Node.isVirtual, ← h.sameIdentity.recipe_eq, hrecipe]
  have hdecides := h.decides
  rwa [Decides, if_pos hvirtual] at hdecides

/-- A package is judged by its own hook, and decided. -/
theorem of_package {recipe : Recipe} (hrecipe : h.final.recipe? = some recipe) :
    ∃ verdict d, recipe.judge (s.final.hookContext i h.final) = .ok verdict ∧
      h.identified.invalid? = rejection? verdict ∧ h.identified.id?.isSome = true ∧
      h.decision? = some d ∧ s.context.decide s.identified i h.identified = .ok d := by
  obtain ⟨identity, reason?, hidentify, hidentified⟩ :=
    h.identifies.of_package (h.final_recipe?.symm.trans hrecipe)
  obtain ⟨verdict, hreason, hjudge⟩ := exists_verdict hidentify
  have hpackage : ¬h.identified.isVirtual = true := by
    simp [Node.isVirtual, ← h.sameIdentity.recipe_eq, hrecipe]
  have hdecides := h.decides
  rw [Decides, if_neg hpackage] at hdecides
  obtain ⟨d, hd, hdecide⟩ := hdecides
  refine ⟨verdict, d, ?_, ?_, ?_, hd, hdecide⟩
  · rw [h.hookContext_final, hidentified, hjudge]
  · simp [hidentified, identifiedNode, hreason, h.configured_eq.2.2.1]
  · simp [hidentified, identifiedNode]

/-- A node that is settled records what was decided about it, and nothing if nothing was. -/
theorem settledNode_binary :
    (settledNode h.identified h.decision?).status? = h.decision?.map (·.status) ∧
      (settledNode h.identified h.decision?).fallback? = h.decision?.bind (·.fallback?) ∧
      (settledNode h.identified h.decision?).remote? = h.decision?.bind (·.remote?) := by
  cases hd : h.decision? with
  | some d => exact ⟨rfl, rfl, rfl⟩
  | none =>
    cases hrecipe : h.final.recipe? with
    | none =>
      obtain ⟨hidentified, -⟩ := h.of_virtual hrecipe
      obtain ⟨-, -, -, hbinary⟩ := h.configured_eq
      rw [hidentified]
      exact hbinary
    | some recipe =>
      obtain ⟨-, d, -, -, -, hsome, -⟩ := h.of_package hrecipe
      rw [hd] at hsome
      cases hsome

end History

end Stages

end Resolver

end Provision
