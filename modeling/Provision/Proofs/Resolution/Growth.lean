import Provision.Proofs.Resolution.Invalidity

/-!
Resolutions of one request against stores that gain binaries. Identities and verdicts stay as they
are; statuses change only to rest on binaries. So no package becomes invalid or missing that was
neither before, and what nobody needed is still not needed.
-/

namespace Provision

/-- How far an outcome is from being ready. -/
def Outcome.severity : Outcome → Nat
  | .ready => 0
  | .missingBinaries => 1
  | .invalidPackages => 2

private theorem Outcome.severity_le (outcome : Outcome) : outcome.severity ≤ 2 := by
  cases outcome <;> decide

/-- The binary of the node of an index exists nowhere. -/
def Graph.MissingAt (g : Graph) (i : Nat) : Prop :=
  ∃ n, g.nodes[i]? = some n ∧ n.status? = some .missing

theorem Graph.missingNodes_eq_nil_iff {g : Graph} :
    g.missingNodes = [] ↔ ∀ i, ¬g.MissingAt i := by
  have hnodes := filter_nodes_eq_nil_iff (g := g) (p := (·.status? == some .missing))
  simp only [beq_iff_eq] at hnodes
  exact hnodes

/-- Where nothing is invalid, an outcome gets worse by missing binaries alone. -/
theorem Resolution.severity_outcome_le {r r' : Resolution}
    (hvalid : ∀ i, ¬r.graph.InvalidAt i) (hvalid' : ∀ i, ¬r'.graph.InvalidAt i)
    (hmissing : ∀ i, r'.graph.MissingAt i → r.graph.MissingAt i) :
    r'.outcome.severity ≤ r.outcome.severity := by
  unfold outcome
  rw [Graph.invalidNodes_eq_nil_iff.mpr hvalid, Graph.invalidNodes_eq_nil_iff.mpr hvalid']
  cases hnodes : r.graph.missingNodes with
  | nil =>
    have hready := Graph.missingNodes_eq_nil_iff.mp hnodes
    have hready' : r'.graph.missingNodes = [] :=
      Graph.missingNodes_eq_nil_iff.mpr fun i hi => hready i (hmissing i hi)
    exact Nat.le_of_eq (by rw [hready'])
  | cons n nodes =>
    simp only [List.isEmpty_nil, List.isEmpty_cons, Bool.not_true, Bool.not_false,
      Bool.false_eq_true, if_false, if_true]
    split <;> decide

namespace Resolver

variable {resolver resolver' : Resolver} {request : ResolveRequest}

private theorem exists_decideAll {executor : Executor} {k : DecisionContext} {g : Graph}
    {decisions : List (Option Decision)} (h : decideAll executor k g = .ok decisions)
    (executor' : Executor) (k' : DecisionContext) (hmode : k'.mode = k.mode)
    (hpolicy : k'.policy = k.policy) (hgrows : k.stores.Grows k'.stores) :
    ∃ decisions', decideAll executor' k' g = .ok decisions' := by
  refine exists_decideAll_iff.mpr fun i hi => ?_
  obtain ⟨n, hn⟩ := Graph.exists_getElem?_of_lt_size (List.mem_range.mp hi)
  obtain ⟨d?, hdecides, -⟩ := exists_decides h hn
  simp only [← decides_iff hn]
  unfold Decides at hdecides ⊢
  split at hdecides
  · rename_i hvirtual
    exact ⟨none, by rw [if_pos hvirtual]⟩
  · rename_i hpackage
    obtain ⟨d, -, hdecide⟩ := hdecides
    obtain ⟨d', hdecide', -⟩ := DecisionContext.exists_decide hmode hpolicy hgrows hdecide
    exact ⟨some d', by rw [if_neg hpackage]; exact ⟨d', rfl, hdecide'⟩⟩

namespace Stages

/-- Stages of a resolution against grown stores. -/
structure Grown (s : Stages resolver request) (s' : Stages resolver' request) : Prop where
  config_eq : resolver'.config = resolver.config
  grows : resolver.stores.Grows resolver'.stores
  built_eq : s'.built = s.built
  identified_eq : s'.identified = s.identified

theorem exists_grown (s : Stages resolver request) {stores : Stores} (executor : Executor)
    (hgrows : resolver.stores.Grows stores) :
    ∃ s' : Stages { resolver with stores, executor } request, s.Grown s' := by
  obtain ⟨decisions, hdecisions⟩ := exists_decideAll s.decide_eq executor
    ⟨stores, request.policy, resolver.config.mode⟩ rfl rfl hgrows
  exact ⟨⟨s.built, s.layers, s.configured, s.identified, decisions, s.build_eq, s.layers_eq,
    s.configure_eq, s.identify_eq, hdecisions⟩, rfl, hgrows, rfl, rfl⟩

namespace History

variable {s : Stages resolver request} {i : Nat}

theorem idleAt_iff (h : s.History i) :
    s.final.IdleAt i ↔ h.final.status.hasBinary = true ∨ h.final.status = .skip := by
  simp [Graph.IdleAt, h.final_eq]

/-- Where no node is invalid, a node is skipped or has the status decided on. -/
theorem status?_of_valid (h : s.History i) (hnone : ∀ j, ¬s.final.InvalidAt j) :
    h.final.status? =
      if s.final.isSkipped i h.identified then some .skip else h.decision?.map Decision.status := by
  have hreason : s.propagated.inheritedReason? i = none := by
    rw [Option.eq_none_iff_forall_ne_some]
    intro reason hreason
    obtain ⟨j, m, -, -, hm, hinvalid, -⟩ := exists_cause hreason
    exact hnone j ⟨m, hm, hinvalid⟩
  have hpropagated : h.propagated = settledNode h.identified h.decision? := by
    rw [h.inherits, hreason, Node.inheriting_none]
  have hskipped : s.final.isSkipped i h.propagated = s.final.isSkipped i h.identified := by
    rw [hpropagated]
    cases h.decision? <;> rfl
  rw [h.skips, Node.status?_skippedIf, hskipped, hpropagated, h.settledNode_binary.1]

end History

namespace Grown

variable {s : Stages resolver request} {s' : Stages resolver' request} {i j : Nat}

private theorem edges_eq (hgrown : s.Grown s') : s'.final.edges = s.final.edges := by
  rw [s'.final_frame.1, s.final_frame.1, hgrown.built_eq]

theorem size_eq (hgrown : s.Grown s') : s'.final.size = s.final.size := by
  rw [s'.final_frame.2, s.final_frame.2, hgrown.built_eq]

private theorem hasEdge_iff (hgrown : s.Grown s') : s'.final.HasEdge i j ↔ s.final.HasEdge i j := by
  rw [Graph.HasEdge, Graph.HasEdge, hgrown.edges_eq]

theorem exists_history (hgrown : s.Grown s') (hi : i < s.final.size) :
    Nonempty (s.History i) ∧ Nonempty (s'.History i) := by
  rw [s.final_frame.2] at hi
  exact ⟨s.exists_history hi, s'.exists_history (hgrown.built_eq ▸ hi)⟩

section History

variable (hgrown : s.Grown s') (h : s.History i) (h' : s'.History i)
include hgrown h h'

theorem node_eq : h'.identified = h.identified := by
  have hnode := h'.identified_eq
  rw [hgrown.identified_eq, h.identified_eq] at hnode
  exact (Option.some.inj hnode).symm

private theorem rejects_iff {message : String} :
    s'.final.Rejects i message ↔ s.final.Rejects i message := by
  rw [h.rejects_iff, h'.rejects_iff, hgrown.node_eq h h']

theorem isVirtual_eq : h'.final.isVirtual = h.final.isVirtual := by
  rw [Node.isVirtual, Node.isVirtual, h.sameIdentity.recipe_eq, h'.sameIdentity.recipe_eq,
    hgrown.node_eq h h']

/-- A node comes to rest on a binary, or the status decided on stays as it is. -/
theorem decision_cases : (∃ d', h'.decision? = some d' ∧ d'.status.hasBinary = true) ∨
    h'.decision?.map Decision.status = h.decision?.map Decision.status := by
  have hdecides := h.decides
  have hdecides' := h'.decides
  unfold Decides at hdecides hdecides'
  rw [hgrown.node_eq h h', hgrown.identified_eq] at hdecides'
  split at hdecides
  · rename_i hvirtual
    rw [if_pos hvirtual] at hdecides'
    rw [hdecides, hdecides']
    exact .inr rfl
  · rename_i hpackage
    rw [if_neg hpackage] at hdecides'
    obtain ⟨d, hd, hdecide⟩ := hdecides
    obtain ⟨d', hd', hdecide'⟩ := hdecides'
    have hmode : s'.context.mode = s.context.mode := congrArg GlobalConfig.mode hgrown.config_eq
    have hpolicy : s'.context.policy = s.context.policy := rfl
    have hgrows : s.context.stores.Grows s'.context.stores := hgrown.grows
    obtain ⟨e, he, himproves⟩ := DecisionContext.exists_decide hmode hpolicy hgrows hdecide
    obtain rfl := Except.ok.inj (hdecide'.symm.trans he)
    rcases himproves with hbinary | hstatus
    · exact .inl ⟨d', hd', hbinary⟩
    · rw [hd, hd', Option.map_some, Option.map_some, hstatus]
      exact .inr rfl

/-- A package that rejects itself and had a candidate to stand in still has one. -/
theorem isInvalid_of_rejects {message : String} (hrejects' : s'.final.Rejects i message)
    (hinvalid' : h'.final.isInvalid = true) : h.final.isInvalid = true := by
  have hrejects := (hgrown.rejects_iff h h').mp hrejects'
  obtain ⟨d, hd, -, ⟨hinvalid, -⟩ | ⟨-, hbinary⟩⟩ := h.exists_decision_of_rejects hrejects
  · exact hinvalid
  · obtain ⟨d', hd', -, ⟨-, hstatus'⟩ | ⟨hfallback', -⟩⟩ := h'.exists_decision_of_rejects hrejects'
    · rcases hgrown.decision_cases h h' with ⟨e, he, hbinary'⟩ | hsame
      · obtain rfl := Option.some.inj (hd'.symm.trans he)
        rw [hstatus'] at hbinary'
        cases hbinary'
      · rw [hd, hd'] at hsame
        have hkept : d'.status = d.status := Option.some.inj hsame
        rw [← hkept, hstatus'] at hbinary
        cases hbinary
    · rw [Node.isInvalid_of_fallback hfallback'] at hinvalid'
      cases hinvalid'

end History

/-- Nothing becomes invalid. -/
theorem invalidAt (hgrown : s.Grown s') :
    ∀ i < s.final.size, s'.final.InvalidAt i → s.final.InvalidAt i := by
  -- from the bottom up, as a reason is taken over from a dependency
  refine (s.isLayering_of_frame s.final_frame).induction_up fun i hi ih hinvalid' => ?_
  obtain ⟨⟨h⟩, ⟨h'⟩⟩ := hgrown.exists_history hi
  obtain ⟨n, hn, hinvalid⟩ := hinvalid'
  obtain rfl := Option.some.inj (h'.final_eq.symm.trans hn)
  refine ⟨h.final, h.final_eq, ?_⟩
  rcases h'.invalid_cases hinvalid with ⟨message, hrejects', -⟩ |
      ⟨reason, hpackage', hnever', hinherited', -⟩
  · exact hgrown.isInvalid_of_rejects h h' hrejects' hinvalid
  · obtain ⟨j, m, -, hij', hm, hcause, -⟩ := exists_cause hinherited'
    have hij := hgrown.hasEdge_iff.mp hij'
    have hbelow : s.final.InvalidAt j := ih j hij ⟨m, hm, hcause⟩
    cases h.endsAs with
    | virtual hrecipe =>
      rw [hgrown.isVirtual_eq h h'] at hpackage'
      simp [Node.isVirtual, hrecipe] at hpackage'
    | rejected hrejects => exact absurd ((hgrown.rejects_iff h h').mpr hrejects) (hnever' _)
    | inherited _ _ _ hreason hfallback => simp [Node.isInvalid, hreason, hfallback]
    | valid _ hnone => exact absurd hbelow (Stages.not_invalidAt hnone hij)

theorem not_invalidAt (hgrown : s.Grown s') (hnone : ∀ j, ¬s.final.InvalidAt j) (i : Nat) :
    ¬s'.final.InvalidAt i := by
  intro hinvalid'
  obtain ⟨n, hn, -⟩ := id hinvalid'
  have hi : i < s.final.size := hgrown.size_eq ▸ Graph.lt_size_of_getElem? hn
  exact hnone i (hgrown.invalidAt i hi hinvalid')

/-- What is skipped is still skipped as long as what was idle is idle. -/
theorem isSkipped (hgrown : s.Grown s') (h : s.History i) (h' : s'.History i)
    (hidle : ∀ j, s.final.HasEdge j i → s.final.IdleAt j → s'.final.IdleAt j)
    (hskipped : s.final.isSkipped i h.identified = true) :
    s'.final.isSkipped i h'.identified = true := by
  rw [hgrown.node_eq h h']
  unfold Graph.isSkipped at hskipped ⊢
  split
  · rename_i hroot
    rwa [if_pos hroot] at hskipped
  · rename_i hnode
    rw [if_neg hnode, Bool.and_eq_true] at hskipped
    rw [Bool.and_eq_true]
    exact ⟨hskipped.1, Graph.isUnneeded_of_idle hgrown.edges_eq hidle hskipped.2⟩

/-- What is idle stays idle, where no node is invalid. -/
theorem idleAt (hgrown : s.Grown s') (hnone : ∀ j, ¬s.final.InvalidAt j) :
    ∀ i < s.final.size, s.final.IdleAt i → s'.final.IdleAt i := by
  -- from the top down, as a node is skipped on account of its dependents
  refine (s.isLayering_of_frame s.final_frame).induction_down fun i hi ih hidle => ?_
  obtain ⟨⟨h⟩, ⟨h'⟩⟩ := hgrown.exists_history hi
  have hnone' := hgrown.not_invalidAt hnone
  have hidle' (j : Nat) (hji : s.final.HasEdge j i) (hj : s.final.IdleAt j) :
      s'.final.IdleAt j := by
    obtain ⟨n, hn, -⟩ := id hj
    exact ih j (Graph.lt_size_of_getElem? hn) hji hj
  rw [h.idleAt_iff, Node.status, h.status?_of_valid hnone] at hidle
  rw [h'.idleAt_iff, Node.status, h'.status?_of_valid hnone']
  by_cases hskipped' : s'.final.isSkipped i h'.identified = true
  · rw [if_pos hskipped']
    exact .inr rfl
  · have hkept : ¬s.final.isSkipped i h.identified = true := fun hskipped =>
      hskipped' (hgrown.isSkipped h h' hidle' hskipped)
    rw [if_neg hkept] at hidle
    rw [if_neg hskipped']
    rcases hgrown.decision_cases h h' with ⟨d', hd', hbinary⟩ | hsame
    · rw [hd']
      exact .inl hbinary
    · rwa [hsame]

theorem missingAt (hgrown : s.Grown s') (hnone : ∀ j, ¬s.final.InvalidAt j) {i : Nat}
    (hmissing : s'.final.MissingAt i) : s.final.MissingAt i := by
  obtain ⟨n, hn, hstatus'⟩ := hmissing
  have hi : i < s.final.size := hgrown.size_eq ▸ Graph.lt_size_of_getElem? hn
  obtain ⟨⟨h⟩, ⟨h'⟩⟩ := hgrown.exists_history hi
  obtain rfl := Option.some.inj (h'.final_eq.symm.trans hn)
  -- a node that is not idle was not skipped before, so that its decision has not changed
  have hbusy' : ¬s'.final.IdleAt i := by
    rw [h'.idleAt_iff, Node.status, hstatus']
    simp [BinaryStatus.hasBinary]
  have hbusy : ¬s.final.IdleAt i := fun hidle => hbusy' (hgrown.idleAt hnone i hi hidle)
  refine ⟨h.final, h.final_eq, ?_⟩
  rw [h.idleAt_iff, Node.status, h.status?_of_valid hnone] at hbusy
  rw [h'.status?_of_valid (hgrown.not_invalidAt hnone)] at hstatus'
  rw [h.status?_of_valid hnone]
  split at hbusy
  · exact absurd (.inr rfl) hbusy
  · rename_i hkept
    rw [if_neg hkept]
    split at hstatus'
    · cases hstatus'
    · rcases hgrown.decision_cases h h' with ⟨d', hd', hbinary⟩ | hsame
      · rw [hd'] at hstatus'
        have hmissing : d'.status = .missing := Option.some.inj hstatus'
        rw [hmissing] at hbinary
        cases hbinary
      · rw [← hsame, hstatus']

end Grown

end Stages

/-- When stores gain binaries, a resolution still succeeds, and its outcome gets no worse. -/
theorem severity_outcome_le_of_grows {resolver : Resolver} {stores : Stores}
    {request : ResolveRequest} {r : Resolution} (executor : Executor)
    (hgrows : resolver.stores.Grows stores) (h : (resolver.resolve request).1 = .ok r) :
    ∃ r', ({ resolver with stores, executor }.resolve request).1 = .ok r' ∧
      r'.outcome.severity ≤ r.outcome.severity := by
  obtain ⟨s, hfinal⟩ := resolve_eq_ok_iff.mp h
  obtain ⟨s', hgrown⟩ := s.exists_grown executor hgrows
  refine ⟨⟨s'.final⟩, resolve_eq_ok_iff.mpr ⟨s', rfl⟩, ?_⟩
  cases r
  cases hfinal
  by_cases hinvalid : ∃ i, s.final.InvalidAt i
  · rw [Resolution.outcome_eq_invalidPackages_iff.mpr hinvalid]
    exact Outcome.severity_le _
  · have hnone : ∀ i, ¬s.final.InvalidAt i := not_exists.mp hinvalid
    exact Resolution.severity_outcome_le hnone (hgrown.not_invalidAt hnone) fun _ =>
      hgrown.missingAt hnone

/-- A resolver for a package with a library, whose local store has the given binaries. -/
def ofBinaries (binaries : List BinaryKey) : Resolver where
  catalog := .ofLibrary .none
  stores := ⟨.holding "local" binaries, []⟩
  config := .default

theorem severity_outcome_le_ofBinaries :
    let request : ResolveRequest := ⟨.package (.ofTexts "app" "1.0"), ∅, .never⟩
    let binaries : List BinaryKey :=
      [⟨.ofTexts "app" "1.0", "66dac96aecf77157b263f8f987578427659daa35645e97433b800eac54b22354"⟩,
        ⟨.ofTexts "zlib" "1.3.0",
          "e804a3658b70b99fd306b75a741d47e6fa8dc5c7e774e715587b372cbe41933e"⟩]
    ∃ r r', ((ofBinaries []).resolve request).1 = .ok r ∧
      ((ofBinaries binaries).resolve request).1 = .ok r' ∧ r.outcome = .missingBinaries ∧
      r'.outcome = .ready ∧ r'.outcome.severity ≤ r.outcome.severity := by
  intro request binaries
  have hmissing : ((ofBinaries []).resolve request).1.toOption.map (·.outcome) =
      some .missingBinaries := by decide +kernel
  have hready : ((ofBinaries binaries).resolve request).1.toOption.map (·.outcome) =
      some .ready := by decide +kernel
  have hcache : (MemoryStore.mk "local" [] false).toStore.Grows
      (MemoryStore.mk "local" binaries false).toStore :=
    MemoryStore.grows_toStore rfl rfl (List.nil_subset binaries)
  have hgrows : (ofBinaries []).stores.Grows (ofBinaries binaries).stores := ⟨hcache, .nil⟩
  cases h : ((ofBinaries []).resolve request).1 with
  | error e =>
    rw [h] at hmissing
    cases hmissing
  | ok r =>
    obtain ⟨r', h', hle⟩ := severity_outcome_le_of_grows .inOrder hgrows h
    change ((ofBinaries binaries).resolve request).1 = .ok r' at h'
    rw [h] at hmissing
    rw [h'] at hready
    exact ⟨r, r', rfl, h', Option.some.inj hmissing, Option.some.inj hready, hle⟩

end Resolver

end Provision
