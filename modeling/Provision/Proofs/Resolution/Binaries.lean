import Provision.Proofs.Compatibility
import Provision.Proofs.Resolution.Identities

/-!
The binaries that a resolution uses. A node that ends with a binary has kept what was decided for
it, so that the binary is that of a configuration which the package accepts: the requested one, or
a candidate that the package offers. What the package rejects is never built or used.
-/

namespace Provision

/-- The package of a node accepts the configuration behind an identity, which is the requested one,
or the candidate in whose place it is used. -/
inductive Graph.Backs (g : Graph) (mode : IdentityMode) (i : Nat) (n : Node) (recipe : Recipe) :
    PackageId → Prop
  | requested {id : PackageId} (hfallback : n.fallback? = none)
      (haccepts : recipe.Accepts (g.hookContext i n) (g.contributions mode i) n.requested id) :
      Backs g mode i n recipe id
  | candidate {fallback : Fallback} {candidate : Candidate}
      (hfallback : n.fallback? = some fallback)
      (hoffers : g.Offers i n recipe fallback.candidateIndex candidate)
      (haccepts : recipe.Accepts (g.hookContext i n) (g.contributions mode i)
        (recipe.substituted n.requested candidate) fallback.selected) :
      Backs g mode i n recipe fallback.selected

/-- What a resolution may use of the binaries that its stores have. -/
structure Resolution.UsesValidBinaries (r : Resolution) (mode : IdentityMode) (stores : Stores) :
    Prop where
  backed : ∀ (i : Nat) (n : Node), r.graph.nodes[i]? = some n → n.status.hasBinary = true →
    ∃ recipe id, n.recipe? = some recipe ∧ n.effectiveId? = some id ∧
      r.graph.Backs mode i n recipe id ∧
      stores.Serve (.of n.reference id) n.status n.remote?
  /-- A package that rejects itself is invalid, unless a candidate with a binary stands in. -/
  rejected : ∀ (i : Nat) (n : Node) (message : String), r.graph.nodes[i]? = some n →
    r.graph.Rejects i message →
      (n.status? = some .invalid ∧ n.fallback? = none) ∨
        ((n.status? = some .cache ∨ n.status? = some .download) ∧ n.fallback?.isSome = true)

theorem BinaryStatus.hasBinary_iff {status : BinaryStatus} :
    status.hasBinary = true ↔ status = .cache ∨ status = .download := by
  rw [hasBinary, Bool.or_eq_true, beq_iff_eq, beq_iff_eq]

namespace Resolver.Stages.History

variable {resolver : Resolver} {request : ResolveRequest} {s : Stages resolver request} {i : Nat}
  (h : s.History i)

/-- A node with a binary is a package that has kept what was decided. -/
theorem exists_decision_of_hasBinary (hbinary : h.final.status.hasBinary = true) :
    ∃ recipe d, h.final.recipe? = some recipe ∧
      s.context.decide s.identified i h.identified = .ok d ∧
      (decidedNode h.identified d).SameBinary h.final := by
  rcases h.final_cases with hsame | ⟨hinvalid, -⟩ | ⟨hskip, -⟩
  · cases hrecipe : h.final.recipe? with
    | none =>
      obtain ⟨hidentified, hd⟩ := h.of_virtual hrecipe
      have hstatus := hsame.status_eq
      rw [hd, hidentified] at hstatus
      have hnothing : h.final.status? = none := hstatus.trans h.configured_eq.2.2.2.1
      rw [Node.status, hnothing] at hbinary
      cases hbinary
    | some recipe =>
      obtain ⟨verdict, d, -, -, -, hd, hdecide⟩ := h.of_package hrecipe
      rw [hd] at hsame
      exact ⟨recipe, d, rfl, hdecide, hsame⟩
  · rw [Node.status, hinvalid] at hbinary
    cases hbinary
  · rw [Node.status, hskip] at hbinary
    cases hbinary

/-- A package that is identified without a reason to reject it accepts what was requested. -/
theorem accepts_requested {recipe : Recipe} {id : PackageId}
    (hrecipe : h.final.recipe? = some recipe) (hvalid : h.identified.invalid? = none)
    (hid : h.final.id? = some id) :
    recipe.Accepts (s.final.hookContext i h.final)
      (s.final.contributions resolver.config.mode i) h.final.requested id := by
  obtain ⟨verdict, d, hjudge, hinvalid, -⟩ := h.of_package hrecipe
  obtain ⟨id', hid', hidentify⟩ := h.identify_final hrecipe
  obtain rfl := Option.some.inj (hid.symm.trans hid')
  cases verdict with
  | valid => exact ⟨_, hidentify, rfl, hjudge⟩
  | invalid reason =>
    rw [hvalid] at hinvalid
    cases hinvalid

/-- The candidates of a node are those that its hook offers in the final graph. -/
theorem exists_of_mem_candidates {recipe : Recipe} {candidates : List PreparedCandidate}
    {p : PreparedCandidate} (hrecipe : h.final.recipe? = some recipe)
    (hcandidates : s.identified.candidates resolver.config.mode i h.identified = .ok candidates)
    (hp : p ∈ candidates) :
    ∃ candidate, s.final.Offers i h.final recipe p.index candidate ∧
      recipe.Accepts (s.final.hookContext i h.final)
        (s.final.contributions resolver.config.mode i)
        (recipe.substituted h.final.requested candidate) p.id := by
  obtain ⟨recipe', candidate, hrecipe', hoffers, haccepts⟩ :=
    Graph.exists_of_mem_candidates hcandidates hp
  obtain rfl := Option.some.inj (hrecipe'.symm.trans (h.sameIdentity.recipe_eq.symm.trans hrecipe))
  -- the hooks see in the final graph what they saw when the node was decided
  rw [Graph.Offers, ← h.hookContext_final] at hoffers
  rw [← h.hookContext_final, ← s.contributions_final, ← h.sameIdentity.requested_eq] at haccepts
  exact ⟨candidate, hoffers, haccepts⟩

private theorem backed (hbinary : h.final.status.hasBinary = true) :
    ∃ recipe id, h.final.recipe? = some recipe ∧ h.final.effectiveId? = some id ∧
      s.final.Backs resolver.config.mode i h.final recipe id ∧
      resolver.stores.Serve (.of h.final.reference id) h.final.status h.final.remote? := by
  obtain ⟨recipe, d, hrecipe, hdecide, hsame⟩ := h.exists_decision_of_hasBinary hbinary
  have hstatus : h.final.status = d.status := by
    rw [Node.status, hsame.status_eq]
    rfl
  have hfallback : h.final.fallback? = d.fallback? := hsame.fallback_eq
  have hremote : h.final.remote? = d.remote? := hsame.remote_eq
  rw [hstatus] at hbinary
  rw [hstatus, hremote, h.sameIdentity.reference_eq]
  cases DecisionContext.restsOn_of_decide hdecide hbinary with
  | @requested id hvalid hid hnone hserve =>
    rw [hnone] at hfallback
    rw [← h.sameIdentity.id_eq] at hid
    refine ⟨recipe, id, hrecipe, ?_, ?_, hserve⟩
    · rw [Node.effectiveId?, hfallback, hid]
      rfl
    · exact .requested hfallback (h.accepts_requested hrecipe hvalid hid)
  | @candidate fallback candidates p hcandidates hmem hsome hselected hindex hserve =>
    rw [hsome] at hfallback
    obtain ⟨candidate, hoffers, haccepts⟩ := h.exists_of_mem_candidates hrecipe hcandidates hmem
    rw [← hindex] at hoffers
    rw [← hselected] at haccepts hserve
    refine ⟨recipe, fallback.selected, hrecipe, ?_, ?_, hserve⟩
    · rw [Node.effectiveId?, hfallback]
      rfl
    · exact .candidate hfallback hoffers haccepts

end Resolver.Stages.History

theorem Resolver.Stages.usesValidBinaries {resolver : Resolver} {request : ResolveRequest}
    (s : Stages resolver request) :
    Resolution.UsesValidBinaries ⟨s.final⟩ resolver.config.mode resolver.stores where
  backed i n hn hbinary := by
    obtain ⟨h, rfl⟩ := s.history_of_final hn
    exact h.backed hbinary
  rejected i n message hn hrejects := by
    obtain ⟨h, rfl⟩ := s.history_of_final hn
    obtain ⟨d, -, hstatus, hcases⟩ := h.exists_decision_of_rejects hrejects
    rw [hstatus]
    rcases hcases with ⟨hinvalid, hrejected⟩ | ⟨hfallback, hbinary⟩
    · rw [Node.isInvalid, Bool.and_eq_true, Option.isNone_iff_eq_none] at hinvalid
      exact .inl ⟨congrArg some hrejected, hinvalid.2⟩
    · rw [BinaryStatus.hasBinary_iff] at hbinary
      exact .inr ⟨hbinary.imp (congrArg some) (congrArg some), hfallback⟩

/-- Whenever a resolution succeeds, the binaries that it uses are there, and they are those of
configurations that their packages accept. -/
theorem Resolver.usesValidBinaries_of_resolve {resolver : Resolver} {request : ResolveRequest}
    {r : Resolution} (h : (resolver.resolve request).1 = .ok r) :
    r.UsesValidBinaries resolver.config.mode resolver.stores := by
  obtain ⟨s, hfinal⟩ := resolve_eq_ok_iff.mp h
  cases r
  cases hfinal
  exact s.usesValidBinaries

/-- A resolver for a package whose library rejects what is not shared and offers it shared, with the
shared library on a remote. -/
def Resolver.ofSharedLibrary : Resolver where
  catalog := .ofLibrary { Hooks.none with
    validate? := some fun context =>
      if context.option? "shared" = some "True" then .ok () else .error (.invalid "static")
    compatibility? := some fun _ => .ok [⟨[], [("shared", "True")]⟩] }
  stores := ⟨.empty "local", [.holding "mirror" [⟨.ofTexts "zlib" "1.3.0",
    "aa26152c3ef3b5d877abf17761bf3d7141329f399d1a511cbc9daea2a183dae8"⟩]]⟩
  config := .default

theorem Resolver.usesValidBinaries_ofSharedLibrary :
    ∃ r n, (ofSharedLibrary.resolve
        ⟨.package (.ofTexts "app" "1.0"), ∅, .everyMissing⟩).1 = .ok r ∧
      r.graph.nodes[1]? = some n ∧ n.invalid? = some (.own "static") ∧
      n.status? = some .download ∧ n.fallback?.map (·.candidateIndex) = some 0 ∧
      r.UsesValidBinaries .semver ofSharedLibrary.stores := by
  have hview : (ofSharedLibrary.resolve
      ⟨.package (.ofTexts "app" "1.0"), ∅, .everyMissing⟩).1.toOption.map (fun r =>
        r.graph.nodes[1]?.map fun n =>
          (n.invalid?, n.status?, n.fallback?.map (·.candidateIndex))) =
      some (some (some (.own "static"), some .download, some 0)) := by decide +kernel
  obtain ⟨r, h, hshown⟩ := exists_ok_of_map_toOption hview
  obtain ⟨n, hn, hnode⟩ := Option.map_eq_some_iff.mp hshown
  simp only [Prod.mk.injEq] at hnode
  obtain ⟨hinvalid, hstatus, hindex⟩ := hnode
  exact ⟨r, n, h, hn, hinvalid, hstatus, hindex, usesValidBinaries_of_resolve h⟩

end Provision
