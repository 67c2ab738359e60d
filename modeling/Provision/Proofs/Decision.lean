import Provision.Decision
import Provision.Fallible
import Provision.Proofs.Store

/-!
The ways in which a single node is decided. Every decision is one of six kinds, and its kind says
what status and what candidate it has. A decision with a binary rests on one that a store has, of
the requested identity or of a candidate. When stores gain binaries, a decision stays the same in
its status or comes to rest on a binary.
-/

namespace Provision

namespace Decision

@[simp]
theorem fallback?_located (d : Decision) (location : Location) :
    (d.located location).fallback? = d.fallback? := by
  cases location <;> rfl

@[simp]
theorem hasBinary_located (d : Decision) (location : Location) :
    (d.located location).status.hasBinary = true := by
  cases location <;> rfl

private theorem serve_located
    {stores : Stores} {key : BinaryKey} {location : Location} {d : Decision}
    (hremote : d.remote? = none) (h : (stores.locate key).location? = some location) :
    stores.Serve key (d.located location).status (d.located location).remote? := by
  obtain ⟨store, hmem, hhas⟩ := Stores.exists_of_search h
  rcases List.mem_cons.mp hmem with hcache | hremotes
  · cases hcache
    simp only [located, hremote]
    exact .cache hhas
  · obtain ⟨other, hother, heq⟩ := List.mem_map.mp hremotes
    cases heq
    exact .download hother hhas

def explored (d : Decision) (exploration : Exploration) : Decision :=
  let d := { d with storeErrors := d.storeErrors ++ exploration.errors }
  match exploration.selected? with
  | none => d
  | some (fallback, location) =>
    { d with fallback? := some fallback, remote? := none }.located location

private theorem explored_of_none {d : Decision} {exploration : Exploration}
    (h : exploration.selected? = none) :
    (d.explored exploration).fallback? = d.fallback? ∧
      (d.explored exploration).status = d.status := by
  simp [explored, h]

private theorem explored_of_isSome {d : Decision} {exploration : Exploration}
    (h : exploration.selected?.isSome = true) :
    (∃ fallback, (d.explored exploration).fallback? = some fallback) ∧
      (d.explored exploration).status.hasBinary = true := by
  obtain ⟨⟨fallback, location⟩, hselected⟩ := Option.isSome_iff_exists.mp h
  simp [explored, hselected]

/-- A search that has selected nothing leaves the remote as it was. -/
theorem remote?_explored {d : Decision} {exploration : Exploration}
    (h : (d.explored exploration).fallback? = none) :
    (d.explored exploration).remote? = d.remote? := by
  cases hselected : exploration.selected? with
  | none => simp [explored, hselected]
  | some selected => simp [explored, hselected] at h

end Decision

namespace DecisionContext

variable {k : DecisionContext} {g : Graph} {i : Nat} {n : Node} {d d' : Decision}

/-- A search among candidates fails only where they cannot be prepared. -/
theorem rescue_eq_ok_iff :
    k.rescue g i n d = .ok d' ↔
      ∃ candidates, g.candidates k.mode i n = .ok candidates ∧
        d' = d.explored (k.stores.explore n candidates) := by
  rw [rescue, bind_eq_ok_iff]
  refine exists_congr fun candidates => and_congr_right fun _ => ?_
  unfold Decision.explored
  dsimp only
  cases (k.stores.explore n candidates).selected? with
  | none => exact ⟨fun h => (Except.ok.inj h).symm, fun h => congrArg Except.ok h.symm⟩
  | some selected => exact ⟨fun h => (Except.ok.inj h).symm, fun h => congrArg Except.ok h.symm⟩

/-- The kinds of decisions about a node. -/
inductive DecidesAs (k : DecisionContext) (n : Node) (d : Decision) : Prop
  /-- Without an identity there is nothing to do. -/
  | anonymous (hid : n.id? = none) (hfallback : d.fallback? = none) (hstatus : d.status = .skip)
  /-- An invalid node has no candidate, or is not to have one. -/
  | rejected (hinvalid : n.invalid?.isSome = true) (hfallback : d.fallback? = none)
      (hstatus : d.status = .invalid)
  /-- A candidate stands in. -/
  | rescued (fallback : Fallback) (hfallback : d.fallback? = some fallback)
      (hstatus : d.status.hasBinary = true)
  /-- The node has its own binary. -/
  | located (hvalid : n.invalid? = none) (hfallback : d.fallback? = none)
      (hstatus : d.status.hasBinary = true)
  /-- The policy has the node built. -/
  | built (hvalid : n.invalid? = none) (hselects : k.policy.selects n.reference = true)
      (hfallback : d.fallback? = none) (hstatus : d.status = .build)
  /-- There is no binary, and the policy does not have the node built. -/
  | absent (hvalid : n.invalid? = none) (hfallback : d.fallback? = none)
      (hstatus : d.status = .missing)

private theorem rescue_cases (h : k.rescue g i n d = .ok d') :
    (d'.fallback? = d.fallback? ∧ d'.status = d.status) ∨
      ∃ fallback, d'.fallback? = some fallback ∧ d'.status.hasBinary = true := by
  obtain ⟨candidates, -, rfl⟩ := rescue_eq_ok_iff.mp h
  cases hselected : (k.stores.explore n candidates).selected? with
  | none => exact .inl (Decision.explored_of_none hselected)
  | some selected =>
    obtain ⟨⟨fallback, hfallback⟩, hstatus⟩ :=
      Decision.explored_of_isSome (d := d) (Option.isSome_of_eq_some hselected)
    exact .inr ⟨fallback, hfallback, hstatus⟩

/-- A valid node comes to rest on its own binary, or is built, or a search among its candidates
decides. -/
theorem decideValid_cases {id : PackageId} (h : k.decideValid g i n id = .ok d) :
    (∃ (location : Location) (before : Decision),
      (k.stores.locate (.of n.reference id)).location? = some location ∧
      before.fallback? = none ∧ before.remote? = none ∧ d = before.located location) ∨
    (k.policy.selects n.reference = true ∧ d.fallback? = none ∧ d.remote? = none ∧
      d.status = .build) ∨
    ∃ before : Decision, before.fallback? = none ∧ before.remote? = none ∧
      before.status = .missing ∧ k.rescue g i n before = .ok d := by
  unfold decideValid at h
  dsimp only at h
  split at h
  · rename_i hfound
    exact .inl ⟨_, _, hfound, rfl, rfl, (Except.ok.inj h).symm⟩
  · rename_i hremote hfound hunforced
    exact .inl ⟨_, _, hfound, rfl, rfl, (Except.ok.inj h).symm⟩
  · rename_i hforced _
    cases h
    exact .inr (.inl ⟨by simp [BuildPolicy.selects, hforced], rfl, rfl, rfl⟩)
  · rw [bind_eq_ok_iff] at h
    obtain ⟨d', hrescue, h⟩ := h
    split at h
    · rename_i hbuilds
      cases h
      rw [Bool.and_eq_true, Option.isNone_iff_eq_none] at hbuilds
      obtain ⟨candidates, -, rfl⟩ := rescue_eq_ok_iff.mp hrescue
      exact .inr (.inl ⟨by simp [BuildPolicy.selects, hbuilds.2], hbuilds.1,
        Decision.remote?_explored hbuilds.1, rfl⟩)
    · cases h
      exact .inr (.inr ⟨_, rfl, rfl, rfl, hrescue⟩)

theorem decide_cases (h : k.decide g i n = .ok d) :
    (n.id? = none ∧ d = .ofStatus .skip) ∨
    (n.invalid?.isSome = true ∧
      (d = .ofStatus .invalid ∨ k.rescue g i n (.ofStatus .invalid) = .ok d)) ∨
    ∃ id, n.id? = some id ∧ n.invalid? = none ∧ k.decideValid g i n id = .ok d := by
  unfold decide at h
  split at h
  · rename_i hid
    exact .inl ⟨hid, (Except.ok.inj h).symm⟩
  · rename_i id hid
    split at h
    · rename_i hinvalid
      split at h
      · exact .inr (.inl ⟨hinvalid, .inl (Except.ok.inj h).symm⟩)
      · exact .inr (.inl ⟨hinvalid, .inr h⟩)
    · rename_i hvalid
      rw [Bool.not_eq_true, Option.isSome_eq_false_iff, Option.isNone_iff_eq_none] at hvalid
      exact .inr (.inr ⟨id, hid, hvalid, h⟩)

private theorem decidesAs_of_decideValid {id : PackageId} (hvalid : n.invalid? = none)
    (h : k.decideValid g i n id = .ok d) : DecidesAs k n d := by
  rcases decideValid_cases h with ⟨location, before, -, hnone, -, rfl⟩ |
    ⟨hselects, hfallback, -, hstatus⟩ | ⟨before, hnone, -, hmissing, hrescue⟩
  · rw [← Decision.fallback?_located before location] at hnone
    exact .located hvalid hnone (Decision.hasBinary_located ..)
  · exact .built hvalid hselects hfallback hstatus
  · rcases rescue_cases hrescue with ⟨hfallback, hstatus⟩ | ⟨fallback, hfallback, hstatus⟩
    · exact .absent hvalid (hfallback.trans hnone) (hstatus.trans hmissing)
    · exact .rescued fallback hfallback hstatus

theorem decidesAs_of_decide (h : k.decide g i n = .ok d) : DecidesAs k n d := by
  rcases decide_cases h with ⟨hid, rfl⟩ | ⟨hinvalid, rfl | hrescue⟩ | ⟨id, -, hvalid, h⟩
  · exact .anonymous hid rfl rfl
  · exact .rejected hinvalid rfl rfl
  · rcases rescue_cases hrescue with ⟨hfallback, hstatus⟩ | ⟨fallback, hfallback, hstatus⟩
    · exact .rejected hinvalid hfallback hstatus
    · exact .rescued fallback hfallback hstatus
  · exact decidesAs_of_decideValid hvalid h

/-- Only what is valid by itself is built. -/
theorem DecidesAs.invalid?_of_build (h : k.DecidesAs n d) (hbuild : d.status = .build) :
    n.invalid? = none := by
  cases h with
  | built hvalid => exact hvalid
  | _ => simp_all [BinaryStatus.hasBinary]

section Binaries

/-- What a decision with a binary rests on. -/
inductive RestsOn (k : DecisionContext) (g : Graph) (i : Nat) (n : Node) (d : Decision) : Prop
  | requested {id : PackageId} (hvalid : n.invalid? = none) (hid : n.id? = some id)
      (hfallback : d.fallback? = none)
      (hserve : k.stores.Serve (.of n.reference id) d.status d.remote?)
  | candidate {fallback : Fallback} {candidates : List PreparedCandidate}
      {candidate : PreparedCandidate} (hcandidates : g.candidates k.mode i n = .ok candidates)
      (hmem : candidate ∈ candidates) (hfallback : d.fallback? = some fallback)
      (hselected : fallback.selected = candidate.id)
      (hindex : fallback.candidateIndex = candidate.index)
      (hserve : k.stores.Serve (.of n.reference candidate.id) d.status d.remote?)

/-- A search among candidates that brings in a binary has found that of a candidate. -/
theorem restsOn_of_rescue (h : k.rescue g i n d = .ok d') (hbefore : d.status.hasBinary = false)
    (hbinary : d'.status.hasBinary = true) : RestsOn k g i n d' := by
  obtain ⟨candidates, hcandidates, rfl⟩ := rescue_eq_ok_iff.mp h
  cases hselected : (k.stores.explore n candidates).selected? with
  | none =>
    rw [(Decision.explored_of_none hselected).2, hbefore] at hbinary
    cases hbinary
  | some selected =>
    obtain ⟨fallback, location⟩ := selected
    obtain ⟨requested, -, candidate, hmem, rfl, hlocation⟩ := Stores.exists_of_explore hselected
    have hfallback : (d.explored (k.stores.explore n candidates)).fallback? =
        some ⟨requested, candidate.id, candidate.index⟩ := by
      simp [Decision.explored, hselected]
    refine .candidate hcandidates hmem hfallback rfl rfl ?_
    simp only [Decision.explored, hselected]
    exact Decision.serve_located rfl hlocation

private theorem restsOn_of_decideValid {id : PackageId} (hvalid : n.invalid? = none)
    (hid : n.id? = some id) (h : k.decideValid g i n id = .ok d)
    (hbinary : d.status.hasBinary = true) : RestsOn k g i n d := by
  rcases decideValid_cases h with ⟨location, before, hfound, hnone, hremote, rfl⟩ |
    ⟨-, -, -, hstatus⟩ | ⟨before, -, -, hmissing, hrescue⟩
  · rw [← Decision.fallback?_located before location] at hnone
    exact .requested hvalid hid hnone (Decision.serve_located hremote hfound)
  · rw [hstatus] at hbinary
    cases hbinary
  · refine restsOn_of_rescue hrescue ?_ hbinary
    rw [hmissing]
    rfl

theorem restsOn_of_decide (h : k.decide g i n = .ok d) (hbinary : d.status.hasBinary = true) :
    RestsOn k g i n d := by
  rcases decide_cases h with ⟨-, rfl⟩ | ⟨-, rfl | hrescue⟩ | ⟨id, hid, hvalid, h⟩
  · cases hbinary
  · cases hbinary
  · exact restsOn_of_rescue hrescue rfl hbinary
  · exact restsOn_of_decideValid hvalid hid h hbinary

end Binaries

section Growth

/-- A decision comes to rest on a binary, or keeps its status. -/
def Improves (d d' : Decision) : Prop :=
  d'.status.hasBinary = true ∨ d'.status = d.status

variable {k' : DecisionContext} {id : PackageId}

/-- A search that succeeded succeeds again, and selects a candidate if it did before. -/
theorem exists_rescue (hmode : k'.mode = k.mode) (hgrows : k.stores.Grows k'.stores)
    {e : Decision} (h : k.rescue g i n e = .ok d) (e' : Decision)
    (hstatus : e'.status = e.status) (hfallback : e'.fallback? = e.fallback?) :
    ∃ d', k'.rescue g i n e' = .ok d' ∧
      (d'.status.hasBinary = true ∧ d'.fallback?.isSome = true ∨
        d'.status = d.status ∧ d'.fallback? = d.fallback?) := by
  obtain ⟨candidates, hcandidates, rfl⟩ := rescue_eq_ok_iff.mp h
  refine ⟨_, rescue_eq_ok_iff.mpr ⟨candidates, hmode ▸ hcandidates, rfl⟩, ?_⟩
  cases hselected : (k'.stores.explore n candidates).selected? with
  | some selected =>
    obtain ⟨⟨fallback, hsome⟩, hbinary⟩ :=
      Decision.explored_of_isSome (d := e') (Option.isSome_of_eq_some hselected)
    exact .inl ⟨hbinary, Option.isSome_of_eq_some hsome⟩
  | none =>
    have hbefore : (k.stores.explore n candidates).selected? = none := by
      by_contra hsome
      have hsome := hgrows.isSome_explore (Option.isSome_iff_ne_none.mpr hsome)
      simp [hselected] at hsome
    obtain ⟨hnone', hkept'⟩ := Decision.explored_of_none (d := e') hselected
    obtain ⟨hnone, hkept⟩ := Decision.explored_of_none (d := e) hbefore
    exact .inr ⟨by rw [hkept', hkept, hstatus], by rw [hnone', hnone, hfallback]⟩

private theorem exists_decideValid (hmode : k'.mode = k.mode) (hpolicy : k'.policy = k.policy)
    (hgrows : k.stores.Grows k'.stores) (h : k.decideValid g i n id = .ok d) :
    ∃ d', k'.decideValid g i n id = .ok d' ∧ Improves d d' := by
  unfold decideValid at h ⊢
  dsimp only at h ⊢
  rw [hpolicy]
  split
  · exact ⟨_, rfl, .inl (Decision.hasBinary_located ..)⟩
  · exact ⟨_, rfl, .inl (Decision.hasBinary_located ..)⟩
  · -- the binary was not in the local store before either
    rename_i hforced hremote
    rw [hforced] at h
    split at h
    · rename_i hcache
      exact absurd (hgrows.locate_eq_cache hcache) hremote
    · cases ‹true = false›
    · cases h
      exact ⟨_, rfl, .inr rfl⟩
    · cases ‹true = false›
  · -- the binary was nowhere before either
    rename_i hnowhere hunforced
    have hbefore : (k.stores.locate (.of n.reference id)).location? = none := by
      by_contra hsome
      have hsome := hgrows.isSome_locate (Option.isSome_iff_ne_none.mpr hsome)
      simp [hnowhere] at hsome
    rw [hbefore, hunforced] at h
    dsimp only at h
    obtain ⟨e, hrescue, h⟩ := bind_eq_ok_iff.mp h
    obtain ⟨e', hrescue', hcases⟩ := exists_rescue hmode hgrows hrescue
      { Decision.ofStatus .missing with
        storeErrors := (k'.stores.locate (.of n.reference id)).errors } rfl rfl
    rcases hcases with ⟨hbinary, hsome⟩ | ⟨hstatus, hfallback⟩
    · refine ⟨e', bind_eq_ok_iff.mpr ⟨e', hrescue', ?_⟩, .inl hbinary⟩
      rw [if_neg (by simp [Option.isNone_eq_false_iff.mpr hsome])]
      rfl
    · split at h
      · rename_i hbuilds
        cases h
        refine ⟨_, bind_eq_ok_iff.mpr ⟨e', hrescue', if_pos ?_⟩, .inr rfl⟩
        rwa [hfallback]
      · rename_i hstays
        cases h
        refine ⟨_, bind_eq_ok_iff.mpr ⟨e', hrescue', if_neg ?_⟩, .inr hstatus⟩
        rwa [hfallback]

theorem exists_decide (hmode : k'.mode = k.mode) (hpolicy : k'.policy = k.policy)
    (hgrows : k.stores.Grows k'.stores) (h : k.decide g i n = .ok d) :
    ∃ d', k'.decide g i n = .ok d' ∧ Improves d d' := by
  unfold decide at h ⊢
  split
  · rename_i hid
    rw [hid] at h
    exact ⟨_, rfl, .inr (congrArg Decision.status (Except.ok.inj h))⟩
  · rename_i id hid
    rw [hid] at h
    dsimp only at h
    split
    · rename_i hinvalid
      rw [if_pos hinvalid] at h
      rw [hpolicy]
      split
      · rename_i hforced
        rw [if_pos hforced] at h
        exact ⟨_, rfl, .inr (congrArg Decision.status (Except.ok.inj h))⟩
      · rename_i hunforced
        rw [if_neg hunforced] at h
        obtain ⟨d', hrescue, hcases⟩ := exists_rescue hmode hgrows h (.ofStatus .invalid) rfl rfl
        exact ⟨d', hrescue, hcases.imp And.left And.left⟩
    · rename_i hvalid
      rw [if_neg hvalid] at h
      exact exists_decideValid hmode hpolicy hgrows h

end Growth

end DecisionContext

end Provision
