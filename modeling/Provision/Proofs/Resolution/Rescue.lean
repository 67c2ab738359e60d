import Provision.Proofs.Resolution.Binaries
import Provision.Proofs.Resolution.Coherence

/-!
Candidates that stand in. A candidate that is selected for a package which rejects itself stays, as
the package has a reason of its own and takes over no other. One that is selected because a valid
package has no binary stays only as long as all direct dependencies are valid: the pass that moves
invalidity up does not ask for candidates, and takes it back.
-/

namespace Provision

/-- A candidate was selected for the node of an index. -/
structure Resolution.SelectsCandidate (r : Resolution) (decisions : List (Option Decision))
    (i : Nat) (n : Node) (d : Decision) : Prop where
  node_eq : r.graph.nodes[i]? = some n
  decision_eq : decisions[i]? = some (some d)
  isSome : d.fallback?.isSome = true

/-- A node names the candidate and the remote of a decision. -/
structure Node.Names (n : Node) (d : Decision) : Prop where
  fallback_eq : n.fallback? = d.fallback?
  remote_eq : n.remote? = d.remote?

/-- What becomes of the candidates that were selected. -/
structure Resolution.SettlesCandidates (r : Resolution) (decisions : List (Option Decision)) :
    Prop where
  hasBinary : ∀ i n d, r.SelectsCandidate decisions i n d → d.status = .cache ∨ d.status = .download
  /-- The candidate of a package that rejects itself stays, whatever its dependencies are. -/
  rejected : ∀ i n d message, r.SelectsCandidate decisions i n d → r.graph.Rejects i message →
    n.Names d ∧ n.status? = some d.status
  /-- Any candidate stays where all direct dependencies are valid. -/
  unaffected : ∀ i n d, r.SelectsCandidate decisions i n d →
    (∀ j, r.graph.HasEdge i j → ¬r.graph.InvalidAt j) →
      n.Names d ∧ (n.status? = some d.status ∨ n.status? = some .skip)
  /-- The candidate of a valid package goes as soon as a direct dependency is invalid. -/
  overruled : ∀ i n d j, r.SelectsCandidate decisions i n d →
    (∀ message, ¬r.graph.Rejects i message) → r.graph.HasEdge i j → r.graph.InvalidAt j →
      n.status? = some .invalid ∧ n.fallback? = none ∧ n.remote? = none

namespace Resolver.Stages

variable {resolver : Resolver} {request : ResolveRequest} {s : Stages resolver request} {i j : Nat}

namespace History

variable {d : Decision}

/-- A candidate is selected along with a binary of it. -/
theorem hasBinary_of_fallback (h : s.History i) (hd : h.decision? = some d)
    (hfallback : d.fallback?.isSome = true) : d.status.hasBinary = true :=
  (DecisionContext.isCoherent_of_decide (h.decide_eq_of_decision hd)).hasBinary_of_fallback
    hfallback

private theorem names_cases (h : s.History i) (hd : h.decision? = some d) :
    (h.final.Names d ∧ h.final.status? = some d.status) ∨
    (h.final.status? = some .invalid ∧ h.final.fallback? = none ∧ h.final.remote? = none) ∨
    (h.final.Names d ∧ h.final.status? = some .skip) := by
  have hcases := h.binary_cases
  rw [hd] at hcases
  rcases hcases with ⟨hstatus, hfallback, hremote⟩ | hinvalid | ⟨hskip, hfallback, hremote⟩
  · exact .inl ⟨⟨hfallback, hremote⟩, hstatus⟩
  · exact .inr (.inl hinvalid)
  · exact .inr (.inr ⟨⟨hfallback, hremote⟩, hskip⟩)

private theorem names_of_rejects (h : s.History i) (hd : h.decision? = some d)
    (hbinary : d.status.hasBinary = true) {message : String}
    (hrejects : s.final.Rejects i message) :
    h.final.Names d ∧ h.final.status? = some d.status := by
  obtain ⟨d', hd', hstatus, -⟩ := h.exists_decision_of_rejects hrejects
  obtain rfl := Option.some.inj (hd.symm.trans hd')
  rcases h.names_cases hd with hkept | ⟨hinvalid, -⟩ | ⟨-, hskip⟩
  · exact hkept
  · rw [Option.some.inj (hstatus.symm.trans hinvalid)] at hbinary
    cases hbinary
  · rw [Option.some.inj (hstatus.symm.trans hskip)] at hbinary
    cases hbinary

private theorem names_of_clear (h : s.History i) (hd : h.decision? = some d)
    (hbinary : d.status.hasBinary = true)
    (hclear : ∀ j, s.final.HasEdge i j → ¬s.final.InvalidAt j) :
    h.final.Names d ∧ (h.final.status? = some d.status ∨ h.final.status? = some .skip) := by
  rcases h.names_cases hd with ⟨hnames, hstatus⟩ | ⟨hinvalid, -⟩ | ⟨hnames, hskip⟩
  · exact ⟨hnames, .inl hstatus⟩
  · -- without invalid dependencies, it is the package that rejects itself
    have hhere : s.final.InvalidAt i := by
      by_contra hvalid
      rw [Graph.InvalidAt, not_exists] at hvalid
      refine s.invalidityIsExact.status_valid i h.final h.final_eq ?_ hinvalid
      exact Bool.not_eq_true _ ▸ fun hn => hvalid h.final ⟨h.final_eq, hn⟩
    rcases s.invalidityIsExact.cause i hhere with ⟨message, hrejects⟩ | ⟨j, hij, hj⟩
    · obtain ⟨hnames, hstatus⟩ := h.names_of_rejects hd hbinary hrejects
      exact ⟨hnames, .inl hstatus⟩
    · exact absurd hj (hclear j hij)
  · exact ⟨hnames, .inr hskip⟩

private theorem overruled_of_hasEdge (h : s.History i) (hd : h.decision? = some d)
    (hbinary : d.status.hasBinary = true) (hnever : ∀ message, ¬s.final.Rejects i message)
    (hij : s.final.HasEdge i j) (hj : s.final.InvalidAt j) :
    h.final.status? = some .invalid ∧ h.final.fallback? = none ∧ h.final.remote? = none := by
  have hpackage := h.isVirtual_of_decision hd
  cases h.endsAs with
  | virtual hrecipe => simp [Node.isVirtual, hrecipe] at hpackage
  | rejected hrejects => exact absurd hrejects (hnever _)
  | valid _ hnone => exact absurd hj (not_invalidAt hnone hij)
  | inherited _ _ _ _ _ hstatus =>
    -- a node that takes a reason over is invalid or built, neither of which a candidate is for
    rcases h.names_cases hd with ⟨-, hkept⟩ | hoverruled | ⟨-, hskip⟩
    · rw [hkept, Option.some.injEq, Option.some.injEq] at hstatus
      rcases hstatus with hinvalid | ⟨hbuild, -⟩
      · rw [hinvalid] at hbinary
        cases hbinary
      · rw [hbuild] at hbinary
        cases hbinary
    · exact hoverruled
    · simp [hskip] at hstatus

end History

end Resolver.Stages

/-- In every resolution that succeeds, a candidate that was selected stays with its binary, unless
its package is valid and has an invalid dependency: then it is lost. -/
theorem Resolver.settlesCandidates_of_resolve {resolver : Resolver} {request : ResolveRequest}
    {r : Resolution} (h : (resolver.resolve request).1 = .ok r) :
    ∃ decisions, resolver.decisions request = .ok decisions ∧ r.SettlesCandidates decisions := by
  obtain ⟨s, hfinal⟩ := resolve_eq_ok_iff.mp h
  have hselected {i : Nat} {n : Node} {d : Decision}
      (hselects : r.SelectsCandidate s.decisions i n d) :
      ∃ h : s.History i, h.final = n ∧ h.decision? = some d ∧ d.status.hasBinary = true := by
    obtain ⟨hi, hd⟩ := s.history_of_decisions hselects.decision_eq
    have hn : hi.final = n :=
      Option.some.inj (hi.final_eq.symm.trans (hfinal ▸ hselects.node_eq))
    exact ⟨hi, hn, hd, hi.hasBinary_of_fallback hd hselects.isSome⟩
  refine ⟨s.decisions, s.decisions_eq, ?_, ?_, ?_, ?_⟩
  · intro i n d hselects
    obtain ⟨-, -, -, hbinary⟩ := hselected hselects
    exact BinaryStatus.hasBinary_iff.mp hbinary
  · intro i n d message hselects hrejects
    obtain ⟨hi, rfl, hd, hbinary⟩ := hselected hselects
    exact hi.names_of_rejects hd hbinary (hfinal ▸ hrejects)
  · intro i n d hselects hclear
    obtain ⟨hi, rfl, hd, hbinary⟩ := hselected hselects
    exact hi.names_of_clear hd hbinary (hfinal ▸ hclear)
  · intro i n d j hselects hnever hij hj
    obtain ⟨hi, rfl, hd, hbinary⟩ := hselected hselects
    exact hi.overruled_of_hasEdge hd hbinary (hfinal ▸ hnever) (hfinal ▸ hij) (hfinal ▸ hj)

theorem Resolver.settlesCandidates_ofSharedLibrary :
    ∃ r decisions, (ofSharedLibrary.resolve
        ⟨.package (.ofTexts "app" "1.0"), ∅, .everyMissing⟩).1 = .ok r ∧
      r.graph.nodes.map (·.status?) = [some .build, some .download] ∧
      ofSharedLibrary.decisions ⟨.package (.ofTexts "app" "1.0"), ∅, .everyMissing⟩ =
        .ok decisions ∧ r.SettlesCandidates decisions := by
  have hview : (ofSharedLibrary.resolve
      ⟨.package (.ofTexts "app" "1.0"), ∅, .everyMissing⟩).1.toOption.map (fun r =>
        r.graph.nodes.map (·.status?)) = some [some .build, some .download] := by decide +kernel
  obtain ⟨r, h, hstatuses⟩ := exists_ok_of_map_toOption hview
  obtain ⟨decisions, hdecisions, hsettles⟩ := settlesCandidates_of_resolve h
  exact ⟨r, decisions, h, hstatuses, hdecisions, hsettles⟩

/-- A resolver for a valid package whose library rejects every configuration. The local store has
the package as a candidate of it is identified. -/
def Resolver.ofBrokenDependency : Resolver where
  catalog := .ofIndex <|
    (RecipeIndex.empty.upsert ⟨.ofTexts "zlib" "1.3.0", [], ∅, [], { Hooks.none with
      validate? := some fun _ => .error (.invalid "broken") }⟩).upsert
      ⟨.ofTexts "app" "1.0", [], ∅, [⟨.ofText "zlib", .exact (.ofText "1.3"), false, true⟩],
        { Hooks.none with compatibility? := some fun _ => .ok [⟨[], [("shared", "True")]⟩] }⟩
  stores := ⟨.holding "local" [⟨.ofTexts "app" "1.0",
    "4dbe2405917b768cc4c6d8c52abd0f0fb30d9d02490c8a7c92fab6cea24480ca"⟩], []⟩
  config := .default

/-- A candidate does not protect a valid package: it is selected, and then lost to the library. -/
theorem Resolver.overruled_ofBrokenDependency :
    let request : ResolveRequest := ⟨.package (.ofTexts "app" "1.0"), ∅, .never⟩
    ∃ r decisions d n, (ofBrokenDependency.resolve request).1 = .ok r ∧
      ofBrokenDependency.decisions request = .ok decisions ∧
      r.SelectsCandidate decisions 0 n d ∧ d.status = .cache ∧
      n.status? = some .invalid ∧ n.fallback? = none ∧
      n.invalid? = some (.dependency (.ofTexts "zlib" "1.3.0") "broken") := by
  intro request
  have hview : (ofBrokenDependency.resolve request).1.toOption.map (fun r =>
      r.graph.nodes[0]?.map fun n => (n.status?, n.fallback?, n.invalid?)) =
        some (some (some .invalid, none,
          some (.dependency (.ofTexts "zlib" "1.3.0") "broken"))) := by decide +kernel
  have hdecided : (ofBrokenDependency.decisions request).toOption.map (fun decisions =>
      decisions[0]?.map fun d? => d?.map fun d => (d.status, d.fallback?.isSome)) =
        some (some (some (.cache, true))) := by decide +kernel
  obtain ⟨r, h, hshown⟩ := exists_ok_of_map_toOption hview
  obtain ⟨n, hn, hnode⟩ := Option.map_eq_some_iff.mp hshown
  obtain ⟨decisions, hdecisions, hfirst⟩ := exists_ok_of_map_toOption hdecided
  obtain ⟨d?, hd?, hdecision⟩ := Option.map_eq_some_iff.mp hfirst
  obtain ⟨d, rfl, hstatus⟩ := Option.map_eq_some_iff.mp hdecision
  simp only [Prod.mk.injEq] at hnode hstatus
  obtain ⟨hinvalid, hlost, hreason⟩ := hnode
  exact ⟨r, decisions, d, n, h, hdecisions, ⟨hn, hd?, hstatus.2⟩, hstatus.1, hinvalid, hlost,
    hreason⟩

end Provision
