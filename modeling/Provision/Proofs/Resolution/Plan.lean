import Provision.Proofs.Graph.Closure
import Provision.Proofs.Resolution.Growth

/-!
Plans that can be carried out. A node ends with the status and the binary that were decided for it,
unless it becomes invalid or is skipped, and nothing is skipped that the identity of a busy node
depends on. So a build in a resolution that is ready finds everything that it needs.
-/

namespace Provision

/-- A node that has its own binary or needs none has one of three statuses. -/
theorem Node.status?_of_idle (n : Node) (h : n.status.hasBinary = true ∨ n.status = .skip) :
    n.status? = some .cache ∨ n.status? = some .download ∨ n.status? = some .skip := by
  unfold status at h
  cases hstatus : n.status? with
  | none => simp [hstatus, BinaryStatus.hasBinary] at h
  | some status => cases status <;> simp_all [BinaryStatus.hasBinary]

namespace Graph

variable {g : Graph} {i j : Nat}

/-- What the identity of a busy node depends on is needed. -/
theorem not_isUnneeded_of_mem_identityClosure (hbusy : ¬g.IdleAt i)
    (hj : j ∈ g.identityClosure i) : ¬g.isUnneeded j = true := by
  intro hunneeded
  rw [isUnneeded, Bool.and_eq_true, List.all_eq_true] at hunneeded
  obtain ⟨e, he, hneeds⟩ := exists_dependent_of_mem_identityClosure hj
  obtain ⟨hplain, hidle⟩ := isIdleEdge_iff.mp (hunneeded.2 e he)
  -- the last edge to a member comes from the busy node itself or is transitive
  rcases hneeds with hsource | htransitive
  · rw [hsource] at hidle
    exact hbusy hidle
  · rw [hplain] at htransitive
    cases htransitive

end Graph

namespace Catalog.IsSound

variable {c : Catalog} {root : RootSpec} {g : Graph} {i j : Nat}

/-- Edges lead to packages. -/
theorem exists_isPackage_of_hasEdge (h : c.IsSound root g) (hij : g.HasEdge i j) :
    ∃ r, g.IsPackage j r := by
  obtain ⟨e, he, rfl, rfl⟩ := hij
  obtain ⟨n, hn⟩ := Graph.exists_getElem?_of_lt_size (h.edgesInside e he).1
  have hmeets := h.meets e.source n hn
  have hmem : e ∈ g.dependencies e.source := Graph.mem_dependencies.mpr ⟨he, rfl⟩
  obtain ⟨k, hk, hget⟩ := List.getElem_of_mem hmem
  have hmet := hmeets.get hk (hmeets.length_eq ▸ hk)
  obtain ⟨r, hr, -⟩ := hmet.target
  rw [List.get_eq_getElem, hget] at hr
  exact ⟨r, hr⟩

/-- Only the root of a graph that is built can be virtual. -/
theorem eq_zero_of_virtual {n : Node} (h : c.IsSound root g) (hn : g.nodes[i]? = some n)
    (hvirtual : n.isVirtual = true) : i = 0 := by
  cases h.entered i n hn with
  | consumer => rfl
  | package => rfl
  | dependency => cases hvirtual

end Catalog.IsSound

namespace Resolver.Stages

variable {resolver : Resolver} {request : ResolveRequest} {s : Stages resolver request} {i j : Nat}

theorem isVirtual_final_eq (h : s.History i) : h.final.isVirtual = h.built.isVirtual := by
  rw [Node.isVirtual, Node.isVirtual, h.recipe?_eq_built]

/-- Everything in an identity closure is a package. -/
theorem exists_package_of_mem_identityClosure (hj : j ∈ s.final.identityClosure i) :
    ∃ h : s.History j, h.final.isVirtual = false := by
  obtain ⟨e, he, -⟩ := Graph.exists_dependent_of_mem_identityClosure hj
  obtain ⟨hmem, htarget⟩ := Graph.mem_dependents.mp he
  have hedge : s.built.HasEdge e.source j := ⟨e, s.final_frame.1 ▸ hmem, rfl, htarget⟩
  obtain ⟨r, n, hn, hpackage, -⟩ := s.isSound.exists_isPackage_of_hasEdge hedge
  obtain ⟨h⟩ := s.exists_history (Graph.lt_size_of_getElem? hn)
  have hbuilt : h.built = n := Option.some.inj (h.built_eq.symm.trans hn)
  exact ⟨h, by rw [isVirtual_final_eq, hbuilt, hpackage]⟩

namespace History

/-- A node ends as it was decided, unless it becomes invalid or is skipped. -/
theorem final_cases (h : s.History i) :
    (settledNode h.identified h.decision?).SameBinary h.final ∨
      (h.final.status? = some .invalid ∧ h.final.fallback? = none ∧ h.final.remote? = none) ∨
      (h.final.status? = some .skip ∧ s.final.isSkipped i h.propagated = true) := by
  by_cases hskipped : s.final.isSkipped i h.propagated = true
  · have hfinal := h.skips
    rw [hskipped] at hfinal
    exact .inr (.inr ⟨by rw [hfinal]; rfl, hskipped⟩)
  · have hfinal := h.skips
    rw [Bool.not_eq_true] at hskipped
    rw [hskipped] at hfinal
    have hkept : h.final = (settledNode h.identified h.decision?).inheriting request.policy
        (s.propagated.inheritedReason? i) := hfinal.trans h.inherits
    rw [hkept]
    exact (Node.sameBinary_inheriting_or ..).imp_right .inl

/-- The decision about a package, and its kind. -/
theorem exists_decision (h : s.History i) (hpackage : h.final.isVirtual = false) :
    ∃ d, h.decision? = some d ∧ s.context.decide s.identified i h.identified = .ok d ∧
      s.context.DecidesAs h.identified d ∧ d.status ≠ .skip := by
  cases hrecipe : h.final.recipe? with
  | none => simp [Node.isVirtual, hrecipe] at hpackage
  | some recipe =>
    obtain ⟨verdict, d, -, -, hid, hd, hdecide⟩ := h.of_package hrecipe
    have hdecides := DecisionContext.decidesAs_of_decide hdecide
    refine ⟨d, hd, hdecide, hdecides, ?_⟩
    intro hskip
    cases hdecides with
    | anonymous hnone => simp [hnone] at hid
    | _ => simp_all [BinaryStatus.hasBinary]

/-- Only packages are decided. -/
theorem isVirtual_of_decision (h : s.History i) {d : Decision} (hd : h.decision? = some d) :
    h.final.isVirtual = false := by
  rw [← Bool.not_eq_true]
  intro hvirtual
  obtain ⟨-, hnone⟩ := h.of_virtual (Option.isNone_iff_eq_none.mp hvirtual)
  rw [hd] at hnone
  cases hnone

/-- Only a package that nobody needs is skipped. -/
theorem isUnneeded_of_skip (h : s.History i) (hpackage : h.final.isVirtual = false)
    (hskip : h.final.status? = some .skip) : s.final.isUnneeded i = true := by
  obtain ⟨d, hd, -, -, hbusy⟩ := h.exists_decision hpackage
  rcases h.final_cases with hsame | ⟨hinvalid, -⟩ | ⟨-, hskipped⟩
  · have hstatus := hsame.status_eq
    rw [hskip, hd] at hstatus
    exact absurd (Option.some.inj hstatus).symm hbusy
  · rw [hskip] at hinvalid
    cases hinvalid
  · have hpropagated : h.propagated.isVirtual = false := by
      rwa [h.skips, Node.isVirtual, (Node.sameIdentity_skippedIf ..).recipe_eq] at hpackage
    unfold Graph.isSkipped at hskipped
    split at hskipped
    · rw [hpropagated] at hskipped
      cases hskipped
    · exact (Bool.and_eq_true _ _ ▸ hskipped).2

/-- Where nothing is invalid and no binary is missing, what is not idle is built. -/
theorem status?_of_ready (h : s.History i) (hvalid : ∀ j, ¬s.final.InvalidAt j)
    (hpresent : ∀ j, ¬s.final.MissingAt j) :
    h.final.status? = some .build ∨ s.final.IdleAt i := by
  have hstatus := h.status?_of_valid hvalid
  rw [h.idleAt_iff, Node.status]
  by_cases hskipped : s.final.isSkipped i h.identified = true
  · rw [if_pos hskipped] at hstatus
    rw [hstatus]
    exact .inr (.inr rfl)
  · rw [if_neg hskipped] at hstatus
    by_cases hvirtual : h.final.isVirtual = true
    · have hroot : i = 0 :=
        s.isSound.eq_zero_of_virtual h.built_eq (isVirtual_final_eq h ▸ hvirtual)
      rw [Node.isVirtual, h.sameIdentity.recipe_eq] at hvirtual
      rw [Graph.isSkipped, if_pos hroot] at hskipped
      exact absurd hvirtual hskipped
    · obtain ⟨d, hd, -⟩ := h.exists_decision (Bool.not_eq_true _ ▸ hvirtual)
      rw [hd, Option.map_some] at hstatus
      have hmissing : h.final.status? ≠ some .missing := fun hmissing =>
        hpresent i ⟨h.final, h.final_eq, hmissing⟩
      have hinvalid : h.final.status? ≠ some .invalid := by
        apply s.invalidityIsExact.status_valid i h.final h.final_eq
        rw [← Bool.not_eq_true]
        exact fun hinvalid => hvalid i ⟨h.final, h.final_eq, hinvalid⟩
      rw [hstatus] at hmissing hinvalid ⊢
      cases hkind : d.status <;> simp_all [BinaryStatus.hasBinary]

/-- Where nothing is invalid and no binary is missing, what is needed is built or has a binary. -/
theorem status?_of_needed (h : s.History i) (hpackage : h.final.isVirtual = false)
    (hvalid : ∀ j, ¬s.final.InvalidAt j) (hpresent : ∀ j, ¬s.final.MissingAt j)
    (hneeded : ¬s.final.isUnneeded i = true) :
    h.final.status? = some .build ∨ h.final.status? = some .cache ∨
      h.final.status? = some .download := by
  refine (h.status?_of_ready hvalid hpresent).imp_right fun hidle => ?_
  rcases h.final.status?_of_idle (h.idleAt_iff.mp hidle) with hcache | hdownload | hskip
  · exact .inl hcache
  · exact .inr hdownload
  · exact absurd (h.isUnneeded_of_skip hpackage hskip) hneeded

end History

end Resolver.Stages

theorem Resolution.outcome_eq_ready_iff {r : Resolution} :
    r.outcome = .ready ↔ (∀ i, ¬r.graph.InvalidAt i) ∧ ∀ i, ¬r.graph.MissingAt i := by
  rw [← Graph.invalidNodes_eq_nil_iff, ← Graph.missingNodes_eq_nil_iff]
  unfold outcome
  cases r.graph.invalidNodes <;> cases r.graph.missingNodes <;> simp

/-- In a resolution that is ready, a build finds everything that it needs: whatever the identity of
a package that is built depends on is itself built, or has a binary. -/
theorem Resolver.provides_identityClosure_of_ready {resolver : Resolver} {request : ResolveRequest}
    {r : Resolution} (h : (resolver.resolve request).1 = .ok r) (hready : r.outcome = .ready)
    {i : Nat} {n : Node} (hn : r.graph.nodes[i]? = some n) (hbuild : n.status? = some .build) :
    ∀ j ∈ r.graph.identityClosure i, ∃ m, r.graph.nodes[j]? = some m ∧
      (m.status? = some .build ∨ m.status? = some .cache ∨ m.status? = some .download) := by
  obtain ⟨s, hfinal⟩ := resolve_eq_ok_iff.mp h
  obtain ⟨hvalid, hpresent⟩ := Resolution.outcome_eq_ready_iff.mp hready
  rw [← hfinal] at hvalid hpresent hn ⊢
  intro j hj
  have hbusy : ¬s.final.IdleAt i := by
    rintro ⟨m, hm, hidle⟩
    obtain rfl := Option.some.inj (hn.symm.trans hm)
    rw [Node.status, hbuild] at hidle
    rcases hidle with hbinary | hskip
    · cases hbinary
    · cases hskip
  have hneeded := Graph.not_isUnneeded_of_mem_identityClosure hbusy hj
  obtain ⟨hhistory, hpackage⟩ := Stages.exists_package_of_mem_identityClosure hj
  exact ⟨hhistory.final, hhistory.final_eq,
    hhistory.status?_of_needed hpackage hvalid hpresent hneeded⟩

theorem Resolver.provides_identityClosure_ofBinaries :
    let binaries : List BinaryKey :=
      [⟨.ofTexts "zlib" "1.3.0",
        "e804a3658b70b99fd306b75a741d47e6fa8dc5c7e774e715587b372cbe41933e"⟩]
    ∃ r n, ((ofBinaries binaries).resolve
        ⟨.package (.ofTexts "app" "1.0"), ∅, .everyMissing⟩).1 = .ok r ∧ r.outcome = .ready ∧
      r.graph.nodes[0]? = some n ∧ n.status? = some .build ∧ r.graph.identityClosure 0 = [1] ∧
      ∃ m, r.graph.nodes[1]? = some m ∧
        (m.status? = some .build ∨ m.status? = some .cache ∨ m.status? = some .download) := by
  intro binaries
  have hview : ((ofBinaries binaries).resolve
      ⟨.package (.ofTexts "app" "1.0"), ∅, .everyMissing⟩).1.toOption.map (fun r =>
        (r.outcome, r.graph.nodes[0]?.map (·.status?), r.graph.identityClosure 0)) =
      some (.ready, some (some .build), [1]) := by decide +kernel
  obtain ⟨r, h, hshown⟩ := exists_ok_of_map_toOption hview
  simp only [Prod.mk.injEq, Option.map_eq_some_iff] at hshown
  obtain ⟨hready, ⟨n, hn, hbuild⟩, hclosure⟩ := hshown
  have hprovided := provides_identityClosure_of_ready h hready hn hbuild 1 (by simp [hclosure])
  exact ⟨r, n, h, hready, hn, hbuild, hclosure, hprovided⟩

end Provision
