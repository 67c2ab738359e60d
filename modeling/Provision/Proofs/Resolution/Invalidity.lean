import Provision.Proofs.Decision
import Provision.Proofs.Resolution.History

/-!
Invalid nodes of a resolution. A node is invalid because its own hook rejects it or because a
dependency is invalid, and no candidate stands in for it. One pass up the layers finds them all:
reasons lead back to packages that reject themselves, along paths of invalid nodes.
-/

namespace Provision

/-- A node is not invalid when a candidate stands in for it. -/
theorem Node.isInvalid_of_fallback {n : Node} (h : n.fallback?.isSome = true) :
    n.isInvalid = false := by
  rw [isInvalid, Option.isNone_eq_false_iff.mpr h, Bool.and_false]

namespace Graph

variable {g : Graph} {i j : Nat} {n : Node} {message : String}

/-- The package of a node rejects its configuration with a message. -/
def Rejects (g : Graph) (i : Nat) (message : String) : Prop :=
  ∃ n recipe, g.nodes[i]? = some n ∧ n.recipe? = some recipe ∧
    recipe.judge (g.hookContext i n) = .ok (.invalid message)

/-- The node of an index is invalid, and no candidate stands in for it. -/
def InvalidAt (g : Graph) (i : Nat) : Prop :=
  ∃ n, g.nodes[i]? = some n ∧ n.isInvalid = true

/-- A path of edges leads from a node to another and never leaves the invalid nodes. -/
def InvalidPath (g : Graph) : Nat → Nat → Prop :=
  Relation.ReflTransGen fun a b => g.HasEdge a b ∧ g.InvalidAt a ∧ g.InvalidAt b

theorem filter_nodes_eq_nil_iff {p : Node → Bool} :
    g.nodes.filter p = [] ↔ ∀ i : Nat, ¬∃ n, g.nodes[i]? = some n ∧ p n = true := by
  rw [List.filter_eq_nil_iff]
  constructor
  · rintro h i ⟨n, hn, hp⟩
    exact h n (List.mem_of_getElem? hn) hp
  · intro h n hn hp
    obtain ⟨i, hi⟩ := List.mem_iff_getElem?.mp hn
    exact h i ⟨n, hi, hp⟩

theorem invalidNodes_eq_nil_iff : g.invalidNodes = [] ↔ ∀ i, ¬g.InvalidAt i :=
  filter_nodes_eq_nil_iff

private theorem Rejects.isVirtual_eq (h : g.Rejects i message) (hn : g.nodes[i]? = some n) :
    n.isVirtual = false := by
  obtain ⟨m, recipe, hm, hrecipe, -⟩ := h
  obtain rfl := Option.some.inj (hn.symm.trans hm)
  simp [Node.isVirtual, hrecipe]

/-- A reason is taken over from a direct dependency that is invalid. -/
theorem exists_of_inheritedReason? {reason : InvalidReason}
    (h : g.inheritedReason? i = some reason) :
    ∃ j d cause, g.HasEdge i j ∧ g.nodes[j]? = some d ∧ d.isInvalid = true ∧
      d.invalid? = some cause ∧ reason = cause.inherited d.reference := by
  obtain ⟨e, he, hreason⟩ := List.exists_of_findSome?_eq_some h
  obtain ⟨d, hd, hreason⟩ := Option.bind_eq_some_iff.mp hreason
  split at hreason
  · rename_i hinvalid
    obtain ⟨cause, hcause, rfl⟩ := Option.map_eq_some_iff.mp hreason
    obtain ⟨hmem, hsource⟩ := mem_dependencies.mp he
    exact ⟨e.target, d, cause, ⟨e, hmem, hsource, rfl⟩, hd, hinvalid, hcause, rfl⟩
  · cases hreason

/-- Without a reason to take over, no direct dependency is invalid. -/
theorem not_invalidAt_of_inheritedReason? (h : g.inheritedReason? i = none)
    (hij : g.HasEdge i j) : ¬g.InvalidAt j := by
  rintro ⟨d, hd, hinvalid⟩
  obtain ⟨e, he, hsource, rfl⟩ := hij
  have hnone := List.findSome?_eq_none_iff.mp h e (mem_dependencies.mpr ⟨he, hsource⟩)
  have hreason : d.invalid?.isSome = true := by
    rw [Node.isInvalid, Bool.and_eq_true] at hinvalid
    exact hinvalid.1
  obtain ⟨cause, hcause⟩ := Option.isSome_iff_exists.mp hreason
  simp [hd, hinvalid, hcause] at hnone

end Graph

namespace Resolver.Stages

variable {resolver : Resolver} {request : ResolveRequest} {s : Stages resolver request} {i j : Nat}

namespace History

/-- The ways in which a node ends. -/
inductive EndsAs (h : s.History i) : Prop
  /-- A virtual node is never invalid. -/
  | virtual (hrecipe : h.final.recipe? = none) (hinvalid : h.final.invalid? = none)
      (hstatus : h.final.status? ≠ some .invalid)
  /-- A package that rejects itself keeps its own reason and what was decided. -/
  | rejected {message : String} {d : Decision} (hrejects : s.final.Rejects i message)
      (hinvalid : h.final.invalid? = some (.own message)) (hdecision : h.decision? = some d)
      (hstatus : h.final.status? = some d.status)
      (hcases : h.final.fallback? = none ∧ d.status = .invalid ∨
        h.final.fallback?.isSome = true ∧ d.status.hasBinary = true)
  /-- Any other package takes over the reason of its dependencies. -/
  | inherited {reason : InvalidReason} (hpackage : h.final.isVirtual = false)
      (hrejects : ∀ message, ¬s.final.Rejects i message)
      (hreason : s.propagated.inheritedReason? i = some reason)
      (hinvalid : h.final.invalid? = some reason) (hfallback : h.final.fallback? = none)
      (hstatus : h.final.status? = some .invalid ∨
        h.final.status? = some .build ∧ request.policy.selects h.final.reference = true)
  /-- Without one, it stays valid. -/
  | valid (hrejects : ∀ message, ¬s.final.Rejects i message)
      (hreason : s.propagated.inheritedReason? i = none) (hinvalid : h.final.invalid? = none)
      (hstatus : h.final.status? ≠ some .invalid)

/-- A hook rejects a node as it ends just if it has rejected it when the node was identified. -/
theorem rejects_iff (h : s.History i) {message : String} :
    s.final.Rejects i message ↔ h.identified.invalid? = some (.own message) := by
  have hfinal (n : Node) : s.final.nodes[i]? = some n ↔ h.final = n := by
    rw [h.final_eq, Option.some.injEq]
  simp only [Graph.Rejects, hfinal]
  cases hrecipe : h.final.recipe? with
  | none =>
    obtain ⟨hidentified, -⟩ := h.of_virtual hrecipe
    rw [hidentified, h.configured_eq.2.2.1]
    simp [hrecipe]
  | some recipe =>
    obtain ⟨verdict, d, hjudge, hinvalid, -⟩ := h.of_package hrecipe
    rw [hinvalid]
    cases verdict <;> simp [hrecipe, hjudge, rejection?]

/-- A package whose own hook rejects it ends as it was decided. -/
theorem endsAs_rejected (h : s.History i) (hpackage : h.identified.isVirtual = false)
    (hid : h.identified.id?.isSome = true) {message : String}
    (hrejects : s.final.Rejects i message)
    (hinvalid : h.identified.invalid? = some (.own message)) {d : Decision}
    (hd : h.decision? = some d) (hdecides : s.context.DecidesAs h.identified d) : h.EndsAs := by
  have hrejected : (decidedNode h.identified d).invalid?.isSome = true := by
    rw [Option.isSome_iff_exists]
    exact ⟨_, hinvalid⟩
  have hpropagated : h.propagated = decidedNode h.identified d := by
    rw [h.inherits, hd]
    exact Node.inheriting_of_invalid hrejected
  have hdecided : (decidedNode h.identified d).isVirtual = false := hpackage
  have hfinal : h.final = decidedNode h.identified d := by
    rw [h.skips, hpropagated, Graph.isSkipped_of_invalid hdecided hrejected]
    rfl
  refine .rejected hrejects (hfinal ▸ hinvalid) hd (hfinal ▸ rfl) ?_
  rw [hfinal]
  cases hdecides with
  | anonymous hnone => simp [hnone] at hid
  | rejected _ hfallback hstatus => exact .inl ⟨hfallback, hstatus⟩
  | rescued fallback hfallback hstatus =>
    exact .inr ⟨Option.isSome_iff_exists.mpr ⟨fallback, hfallback⟩, hstatus⟩
  | located hvalid => simp [hvalid] at hinvalid
  | built hvalid => simp [hvalid] at hinvalid
  | absent hvalid => simp [hvalid] at hinvalid

/-- A package that takes a reason over is not skipped, and is built at best. -/
theorem endsAs_inherited (h : s.History i) (hpackage : h.identified.isVirtual = false)
    (hrejects : ∀ message, ¬s.final.Rejects i message) (hvalid : h.identified.invalid? = none)
    {d : Decision} (hd : h.decision? = some d) (hdecides : s.context.DecidesAs h.identified d)
    {reason : InvalidReason} (hreason : s.propagated.inheritedReason? i = some reason) :
    h.EndsAs := by
  have hpropagated : h.propagated =
      (decidedNode h.identified d).invalidate request.policy reason := by
    rw [h.inherits, hd, hreason]
    exact Node.inheriting_of_valid hpackage hvalid
  have hfinal : h.final = (decidedNode h.identified d).invalidate request.policy reason := by
    rw [h.skips, hpropagated, Graph.isSkipped_of_invalid]
    · rfl
    · unfold Node.invalidate
      split <;> exact hpackage
    · unfold Node.invalidate
      split <;> rfl
  have hreference : h.final.reference = h.identified.reference := h.sameIdentity.reference_eq
  have hkept : h.final.isVirtual = false := by
    rwa [Node.isVirtual, h.sameIdentity.recipe_eq]
  unfold Node.invalidate at hfinal
  split at hfinal
  · rename_i hbuild
    obtain ⟨hstatus, hselects⟩ := hbuild
    have hstatus : d.status = .build := hstatus
    have hfallback : d.fallback? = none := by
      cases hdecides with
      | rescued fallback _ hbinary =>
        rw [hstatus] at hbinary
        cases hbinary
      | _ => assumption
    refine .inherited hkept hrejects hreason (by rw [hfinal]) (by rw [hfinal]; exact hfallback)
      (.inr ⟨?_, ?_⟩)
    · rw [hfinal]
      exact congrArg some hstatus
    · rw [hreference]
      exact hselects
  · exact .inherited hkept hrejects hreason (by rw [hfinal]) (by rw [hfinal])
      (.inl (by rw [hfinal]))

/-- A package without any reason stays valid. -/
theorem endsAs_valid (h : s.History i) (hrejects : ∀ message, ¬s.final.Rejects i message)
    (hvalid : h.identified.invalid? = none) {d : Decision} (hd : h.decision? = some d)
    (hdecides : s.context.DecidesAs h.identified d)
    (hreason : s.propagated.inheritedReason? i = none) : h.EndsAs := by
  have hpropagated : h.propagated = decidedNode h.identified d := by
    rw [h.inherits, hd, hreason]
    rfl
  have hstatus : d.status ≠ .invalid := by
    intro hbad
    cases hdecides with
    | rejected hinvalid => simp [hvalid] at hinvalid
    | _ => simp_all [BinaryStatus.hasBinary]
  refine .valid hrejects hreason ?_ ?_
  · rw [h.skips, Node.invalid?_skippedIf, hpropagated]
    exact hvalid
  · rw [h.skips, Node.status?_skippedIf, hpropagated]
    split
    · simp
    · exact fun hbad => hstatus (Option.some.inj hbad)

theorem endsAs (h : s.History i) : h.EndsAs := by
  cases hrecipe : h.final.recipe? with
  | none =>
    obtain ⟨hidentified, hd⟩ := h.of_virtual hrecipe
    obtain ⟨-, -, hvalid, hstatus, -⟩ := h.configured_eq
    have hvirtual : h.identified.isVirtual = true := by
      simp [Node.isVirtual, ← h.sameIdentity.recipe_eq, hrecipe]
    have hpropagated : h.propagated = h.configured := by
      rw [h.inherits, hd, ← hidentified]
      exact Node.inheriting_of_virtual hvirtual
    refine .virtual hrecipe ?_ ?_
    · rw [h.skips, Node.invalid?_skippedIf, hpropagated, hvalid]
    · rw [h.skips, Node.status?_skippedIf, hpropagated, hstatus]
      split <;> simp
  | some recipe =>
    obtain ⟨verdict, d, -, hinvalid, hid, hd, hdecide⟩ := h.of_package hrecipe
    have hdecides := DecisionContext.decidesAs_of_decide hdecide
    have hpackage : h.identified.isVirtual = false := by
      simp [Node.isVirtual, ← h.sameIdentity.recipe_eq, hrecipe]
    cases verdict with
    | invalid message =>
      exact h.endsAs_rejected hpackage hid (h.rejects_iff.mpr hinvalid) hinvalid hd hdecides
    | valid =>
      have hvalid : h.identified.invalid? = none := hinvalid
      have hnever : ∀ message, ¬s.final.Rejects i message := by
        intro message
        rw [h.rejects_iff, hvalid]
        simp
      cases hreason : s.propagated.inheritedReason? i with
      | none => exact h.endsAs_valid hnever hvalid hd hdecides hreason
      | some reason => exact h.endsAs_inherited hpackage hnever hvalid hd hdecides hreason

/-- A package that rejects itself is invalid, or what was decided has a candidate stand in. -/
theorem exists_decision_of_rejects (h : s.History i) {message : String}
    (hrejects : s.final.Rejects i message) :
    ∃ d, h.decision? = some d ∧ h.final.status? = some d.status ∧
      (h.final.isInvalid = true ∧ d.status = .invalid ∨
        h.final.fallback?.isSome = true ∧ d.status.hasBinary = true) := by
  cases h.endsAs with
  | virtual hrecipe =>
    have hpackage := hrejects.isVirtual_eq h.final_eq
    simp [Node.isVirtual, hrecipe] at hpackage
  | rejected _ hinvalid hd hstatus hcases =>
    refine ⟨_, hd, hstatus, hcases.imp_left ?_⟩
    rintro ⟨hfallback, hrejected⟩
    exact ⟨by simp [Node.isInvalid, hinvalid, hfallback], hrejected⟩
  | inherited _ hnever => exact absurd hrejects (hnever message)
  | valid hnever => exact absurd hrejects (hnever message)

/-- An invalid node has a reason of its own, or one that it has taken over. -/
theorem invalid_cases (h : s.History i) (hinvalid : h.final.isInvalid = true) :
    (∃ message, s.final.Rejects i message ∧ h.final.invalid? = some (.own message) ∧
      h.final.status? = some .invalid) ∨
      ∃ reason, h.final.isVirtual = false ∧ (∀ message, ¬s.final.Rejects i message) ∧
        s.propagated.inheritedReason? i = some reason ∧ h.final.invalid? = some reason ∧
        (h.final.status? = some .invalid ∨
          h.final.status? = some .build ∧ request.policy.selects h.final.reference = true) := by
  cases h.endsAs with
  | virtual _ hvalid => simp [Node.isInvalid, hvalid] at hinvalid
  | rejected hrejects hreason _ hstatus hcases =>
    rcases hcases with ⟨-, hrejected⟩ | ⟨hfallback, -⟩
    · exact .inl ⟨_, hrejects, hreason, by rw [hstatus, hrejected]⟩
    · rw [Node.isInvalid_of_fallback hfallback] at hinvalid
      cases hinvalid
  | inherited hpackage hnever hinherited hreason _ hstatus =>
    exact .inr ⟨_, hpackage, hnever, hinherited, hreason, hstatus⟩
  | valid _ _ hvalid => simp [Node.isInvalid, hvalid] at hinvalid

private theorem isInvalid_final (h : s.History i) : h.final.isInvalid = h.propagated.isInvalid := by
  rw [h.skips, Node.isInvalid, Node.isInvalid, Node.invalid?_skippedIf, Node.fallback?_skippedIf]

end History

private theorem hasEdge_final : s.final.HasEdge i j ↔ s.propagated.HasEdge i j := by
  rw [Graph.HasEdge, Graph.HasEdge, s.final_frame.1, s.propagated_frame.1]

/-- The reason that a node takes over is that of a direct dependency that ends as invalid. -/
theorem exists_cause {reason : InvalidReason}
    (h : s.propagated.inheritedReason? i = some reason) :
    ∃ j n cause, s.final.HasEdge i j ∧ s.final.nodes[j]? = some n ∧ n.isInvalid = true ∧
      n.invalid? = some cause ∧ reason = cause.inherited n.reference := by
  obtain ⟨j, d, cause, hij, hd, hinvalid, hcause, hreason⟩ := Graph.exists_of_inheritedReason? h
  have hj : j < s.built.size := s.propagated_frame.2 ▸ Graph.lt_size_of_getElem? hd
  obtain ⟨hj⟩ := s.exists_history hj
  obtain rfl := Option.some.inj (hj.propagated_eq.symm.trans hd)
  have hreference : hj.final.reference = hj.propagated.reference := by
    rw [hj.skips]
    exact (Node.sameIdentity_skippedIf ..).reference_eq
  refine ⟨j, hj.final, cause, hasEdge_final.mpr hij, hj.final_eq, ?_, ?_, ?_⟩
  · rw [hj.isInvalid_final, hinvalid]
  · rw [hj.skips, Node.invalid?_skippedIf, hcause]
  · rw [hreference, hreason]

/-- Where no reason is taken over, no direct dependency ends as invalid. -/
theorem not_invalidAt (h : s.propagated.inheritedReason? i = none) (hij : s.final.HasEdge i j) :
    ¬s.final.InvalidAt j := by
  rintro ⟨n, hn, hinvalid⟩
  obtain ⟨hj, rfl⟩ := s.history_of_final hn
  rw [hj.isInvalid_final] at hinvalid
  exact Graph.not_invalidAt_of_inheritedReason? h (hasEdge_final.mp hij)
    ⟨hj.propagated, hj.propagated_eq, hinvalid⟩

/-- A reason leads back to a package that rejects itself. -/
theorem exists_origin : ∀ i < s.final.size, ∀ n, s.final.nodes[i]? = some n →
    n.isInvalid = true →
      (∃ message, s.final.Rejects i message ∧ n.invalid? = some (.own message)) ∨
        ∃ j m message, s.final.nodes[j]? = some m ∧ s.final.InvalidAt j ∧
          s.final.Rejects j message ∧ n.invalid? = some (.dependency m.reference message) ∧
          s.final.InvalidPath i j := by
  refine (s.isLayering_of_frame s.final_frame).induction_up fun i hi ih n hn hinvalid => ?_
  obtain ⟨h, rfl⟩ := s.history_of_final hn
  have hhere : s.final.InvalidAt i := ⟨h.final, hn, hinvalid⟩
  rcases h.invalid_cases hinvalid with ⟨message, hrejects, hreason, -⟩ |
      ⟨reason, -, -, hinherited, hreason, -⟩
  · exact .inl ⟨message, hrejects, hreason⟩
  · obtain ⟨j, m, cause, hij, hm, hcauseInvalid, hcause, rfl⟩ := exists_cause hinherited
    have hthere : s.final.InvalidAt j := ⟨m, hm, hcauseInvalid⟩
    rcases ih j hij m hm hcauseInvalid with ⟨message, hrejects, howned⟩ |
        ⟨l, k, message, hk, hlast, hrejects, howned, hpath⟩
    · -- the dependency is itself the origin
      rw [hcause] at howned
      cases howned
      exact .inr ⟨j, m, message, hm, hthere, hrejects, hreason, .single ⟨hij, hhere, hthere⟩⟩
    · rw [hcause] at howned
      cases howned
      exact .inr ⟨l, k, message, hk, hlast, hrejects, hreason, .head ⟨hij, hhere, hthere⟩ hpath⟩

end Resolver.Stages

/-- What is promised of the invalid nodes of a resolution, under a build policy. -/
structure Resolution.InvalidityIsExact (policy : BuildPolicy) (r : Resolution) : Prop where
  cause : ∀ i, r.graph.InvalidAt i →
    (∃ message, r.graph.Rejects i message) ∨ ∃ j, r.graph.HasEdge i j ∧ r.graph.InvalidAt j
  spreads : ∀ (i j : Nat) (n : Node), r.graph.nodes[i]? = some n → n.isVirtual = false →
    n.fallback? = none → r.graph.HasEdge i j → r.graph.InvalidAt j → r.graph.InvalidAt i
  /-- An inherited reason names a package that rejects itself, and gives its message. -/
  origin : ∀ (i : Nat) (n : Node), r.graph.nodes[i]? = some n → n.isInvalid = true →
    (∀ message, ¬r.graph.Rejects i message) →
      ∃ (j : Nat) (m : Node) (message : String), r.graph.nodes[j]? = some m ∧
        r.graph.InvalidAt j ∧ r.graph.Rejects j message ∧
        n.invalid? = some (.dependency m.reference message) ∧ r.graph.InvalidPath i j
  status_rejected : ∀ (i : Nat) (n : Node) (message : String), r.graph.nodes[i]? = some n →
    n.isInvalid = true → r.graph.Rejects i message → n.status? = some .invalid
  status_inherited : ∀ (i : Nat) (n : Node), r.graph.nodes[i]? = some n → n.isInvalid = true →
    (∀ message, ¬r.graph.Rejects i message) →
      n.status? = some .invalid ∨
        n.status? = some .build ∧ policy.selects n.reference = true
  status_valid : ∀ (i : Nat) (n : Node), r.graph.nodes[i]? = some n → n.isInvalid = false →
    n.status? ≠ some .invalid
  outcome_iff : r.outcome = .invalidPackages ↔
    ∃ (i : Nat) (n : Node) (message : String), r.graph.nodes[i]? = some n ∧
      r.graph.Rejects i message ∧ n.fallback? = none

theorem Resolution.outcome_eq_invalidPackages_iff {r : Resolution} :
    r.outcome = .invalidPackages ↔ ∃ i, r.graph.InvalidAt i := by
  rw [← not_iff_not, not_exists, ← Graph.invalidNodes_eq_nil_iff]
  unfold outcome
  cases r.graph.invalidNodes with
  | nil =>
    simp only [List.isEmpty_nil, Bool.not_true, Bool.false_eq_true, if_false, iff_true]
    split <;> simp
  | cons n nodes => simp

namespace Resolver.Stages

variable {resolver : Resolver} {request : ResolveRequest} {s : Stages resolver request} {i j : Nat}

/-- Packages that reject themselves are invalid unless a candidate stands in. -/
theorem invalidAt_of_rejects {n : Node} {message : String} (hn : s.final.nodes[i]? = some n)
    (hrejects : s.final.Rejects i message) (hfallback : n.fallback? = none) :
    s.final.InvalidAt i := by
  obtain ⟨h, rfl⟩ := s.history_of_final hn
  obtain ⟨d, -, -, ⟨hinvalid, -⟩ | ⟨hsome, -⟩⟩ := h.exists_decision_of_rejects hrejects
  · exact ⟨h.final, hn, hinvalid⟩
  · simp [hfallback] at hsome

theorem invalidityIsExact (s : Stages resolver request) :
    Resolution.InvalidityIsExact request.policy ⟨s.final⟩ where
  cause := by
    rintro i ⟨n, hn, hinvalid⟩
    obtain ⟨h, rfl⟩ := s.history_of_final hn
    rcases h.invalid_cases hinvalid with ⟨message, hrejects, -⟩ | ⟨reason, -, -, hinherited, -⟩
    · exact .inl ⟨message, hrejects⟩
    · obtain ⟨j, m, cause, hij, hm, hcause, -⟩ := exists_cause hinherited
      exact .inr ⟨j, hij, m, hm, hcause⟩
  spreads := by
    intro i j n hn hpackage hfallback hij hj
    obtain ⟨h, rfl⟩ := s.history_of_final hn
    refine ⟨h.final, hn, ?_⟩
    cases h.endsAs with
    | virtual hrecipe => simp [Node.isVirtual, hrecipe] at hpackage
    | rejected _ hinvalid => simp [Node.isInvalid, hinvalid, hfallback]
    | inherited _ _ _ hinvalid => simp [Node.isInvalid, hinvalid, hfallback]
    | valid _ hnone => exact absurd hj (not_invalidAt hnone hij)
  origin := by
    intro i n hn hinvalid hnever
    have hi : i < s.final.size := Graph.lt_size_of_getElem? hn
    rcases exists_origin i hi n hn hinvalid with ⟨message, hrejects, -⟩ | horigin
    · exact absurd hrejects (hnever message)
    · exact horigin
  status_rejected := by
    intro i n message hn hinvalid hrejects
    obtain ⟨h, rfl⟩ := s.history_of_final hn
    rcases h.invalid_cases hinvalid with ⟨-, -, -, hstatus⟩ | ⟨reason, -, hnever, -⟩
    · exact hstatus
    · exact absurd hrejects (hnever message)
  status_inherited := by
    intro i n hn hinvalid hnever
    obtain ⟨h, rfl⟩ := s.history_of_final hn
    rcases h.invalid_cases hinvalid with ⟨message, hrejects, -⟩ | ⟨reason, -, -, -, -, hstatus⟩
    · exact absurd hrejects (hnever message)
    · exact hstatus
  status_valid := by
    intro i n hn hvalid
    obtain ⟨h, rfl⟩ := s.history_of_final hn
    cases h.endsAs with
    | virtual _ _ hstatus => exact hstatus
    | rejected hrejects =>
      obtain ⟨d, -, hstatus, ⟨hinvalid, -⟩ | ⟨-, hbinary⟩⟩ := h.exists_decision_of_rejects hrejects
      · rw [hinvalid] at hvalid
        cases hvalid
      · rw [hstatus]
        intro hbad
        rw [Option.some.inj hbad] at hbinary
        cases hbinary
    | inherited _ _ _ hinvalid hfallback => simp [Node.isInvalid, hinvalid, hfallback] at hvalid
    | valid _ _ _ hstatus => exact hstatus
  outcome_iff := by
    rw [Resolution.outcome_eq_invalidPackages_iff]
    constructor
    · rintro ⟨i, n, hn, hinvalid⟩
      have hfallback {m : Node} (hm : m.isInvalid = true) : m.fallback? = none := by
        rw [Node.isInvalid, Bool.and_eq_true, Option.isNone_iff_eq_none] at hm
        exact hm.2
      have hi : i < s.final.size := Graph.lt_size_of_getElem? hn
      rcases exists_origin i hi n hn hinvalid with ⟨message, hrejects, -⟩ |
          ⟨j, m, message, hm, ⟨m', hm', hlast⟩, hrejects, -⟩
      · exact ⟨i, n, message, hn, hrejects, hfallback hinvalid⟩
      · exact ⟨j, m', message, hm', hrejects, hfallback hlast⟩
    · rintro ⟨i, n, message, hn, hrejects, hfallback⟩
      exact ⟨i, invalidAt_of_rejects hn hrejects hfallback⟩

end Resolver.Stages

/-- Invalidity is exact in every resolution that succeeds. -/
theorem Resolver.invalidityIsExact_of_resolve {resolver : Resolver} {request : ResolveRequest}
    {r : Resolution} (h : (resolver.resolve request).1 = .ok r) :
    r.InvalidityIsExact request.policy := by
  obtain ⟨s, hfinal⟩ := Resolver.resolve_eq_ok_iff.mp h
  cases r
  cases hfinal
  exact s.invalidityIsExact

/-- A resolver for a package whose library rejects every configuration. -/
def Resolver.ofBrokenLibrary : Resolver where
  catalog := .ofLibrary { Hooks.none with validate? := some fun _ => .error (.invalid "broken") }
  stores := ⟨.empty "local", []⟩
  config := .default

theorem Resolver.invalidityIsExact_ofBrokenLibrary :
    ∃ r, (ofBrokenLibrary.resolve ⟨.package (.ofTexts "app" "1.0"), ∅, .never⟩).1 = .ok r ∧
      r.outcome = .invalidPackages ∧ r.InvalidityIsExact .never := by
  have houtcome : (ofBrokenLibrary.resolve
      ⟨.package (.ofTexts "app" "1.0"), ∅, .never⟩).1.toOption.map (·.outcome) =
        some .invalidPackages := by decide +kernel
  cases h : (ofBrokenLibrary.resolve ⟨.package (.ofTexts "app" "1.0"), ∅, .never⟩).1 with
  | ok r =>
    rw [h] at houtcome
    exact ⟨r, rfl, Option.some.inj houtcome, invalidityIsExact_of_resolve h⟩
  | error e =>
    rw [h] at houtcome
    cases houtcome

end Provision
