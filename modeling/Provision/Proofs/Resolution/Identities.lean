import Provision.Proofs.OrderedMap
import Provision.Proofs.Resolution.Plan

/-!
Identities of a finished graph. They are computed one after the other while the graph is still
being filled in, yet each of them is the one that the finished graph gives: leaves come first, and
no later stage touches what an identity was computed from.
-/

namespace Provision

namespace Graph

variable {g : Graph} {mode : IdentityMode} {i j : Nat} {n : Node}

/-- Where names are unique, each dependency contributes under its name, and nothing else does. -/
theorem NamesUnique.get?_contributions (hnames : g.NamesUnique)
    (hpackages : ∀ k ∈ g.identityClosure i, ∃ r, g.IsPackage k r) (hj : j ∈ g.identityClosure i)
    (hn : g.nodes[j]? = some n) {text : String}
    (hrender : mode.render n.reference n.id? = some text) :
    (g.contributions mode i).get? n.reference.name.text = some text := by
  have hcontribution (k : Nat) (m : Node) (hm : g.nodes[k]? = some m) :
      g.contribution mode k =
        (mode.render m.reference m.id?).map (m.reference.name.text, ·) := by
    rw [contribution_eq, hm]
    rfl
  apply OrderedMap.get?_ofList_of_forall
  · rw [List.mem_filterMap]
    exact ⟨j, hj, by rw [hcontribution j n hn, hrender, Option.map_some]⟩
  · intro other hother
    obtain ⟨k, hk, hkcontributes⟩ := List.mem_filterMap.mp hother
    obtain ⟨r, m, hm, hpackage, -⟩ := hpackages k hk
    rw [hcontribution k m hm] at hkcontributes
    obtain ⟨rendered, hrendered, heq⟩ := Option.map_eq_some_iff.mp hkcontributes
    obtain ⟨hname, rfl⟩ := Prod.mk.inj heq
    -- one name is the name of one node
    have hname : m.reference.name = n.reference.name := congrArg PackageName.mk hname
    obtain ⟨s, l, hl, hlpackage, -⟩ := hpackages j hj
    obtain rfl := Option.some.inj (hn.symm.trans hl)
    obtain rfl := hnames k j _ _ ⟨m, hm, hpackage, rfl⟩ ⟨n, hn, hlpackage, rfl⟩ hname
    obtain rfl := Option.some.inj (hn.symm.trans hm)
    exact Option.some.inj (hrendered.symm.trans hrender)

/-- The packages of a graph are configured as a profile requests, and have the identities that they
would be given again. -/
structure HasCurrentIdentities (g : Graph) (profile : Profile) (mode : IdentityMode) : Prop where
  configured : ∀ (i : Nat) (n : Node) (recipe : Recipe), g.nodes[i]? = some n →
    n.recipe? = some recipe → profile.configure recipe (i == 0) = .ok n.requested
  identified : ∀ (i : Nat) (n : Node) (recipe : Recipe), g.nodes[i]? = some n →
    n.recipe? = some recipe → ∃ id, n.id? = some id ∧
      recipe.identify n.requested (g.contributions mode i) = .ok ⟨n.info, id⟩
  anonymous : ∀ (i : Nat) (n : Node), g.nodes[i]? = some n → n.recipe? = none → n.id? = none
  closureIdentified : ∀ i, ∀ j ∈ g.identityClosure i,
    ∃ n id, g.nodes[j]? = some n ∧ n.id? = some id
  /-- Where whole packages go into identities, they go in with the identities that they have. -/
  closureEmbedded : mode = .fullPackage → ∀ i, ∀ j ∈ g.identityClosure i, ∀ n id,
    g.nodes[j]? = some n → n.id? = some id →
      (g.contributions mode i).get? n.reference.name.text =
        some (n.reference.text ++ (":" ++ id.digest))

end Graph

namespace Resolver.Stages

variable {resolver : Resolver} {request : ResolveRequest} {s : Stages resolver request} {i j : Nat}

namespace History

variable (h : s.History i)

/-- A package ends with the configuration that was requested for it. -/
theorem configure_final {recipe : Recipe} (hrecipe : h.final.recipe? = some recipe) :
    request.profile.configure recipe (i == 0) = .ok h.final.requested := by
  have hconfigures := h.configuresNode
  simp only [configureNode, ← h.recipe?_eq_built, hrecipe, bind_eq_ok_iff] at hconfigures
  obtain ⟨requested, hrequested, hconfigured⟩ := hconfigures
  obtain ⟨identity, reason?, -, hidentified⟩ :=
    h.identifies.of_package (h.final_recipe?.symm.trans hrecipe)
  rw [hrequested, h.sameIdentity.requested_eq, hidentified, ← Except.ok.inj hconfigured]
  rfl

/-- The identity of a package is the one that the final graph gives it. -/
theorem identify_final {recipe : Recipe} (hrecipe : h.final.recipe? = some recipe) :
    ∃ id, h.final.id? = some id ∧
      recipe.identify h.final.requested (s.final.contributions resolver.config.mode i) =
        .ok ⟨h.final.info, id⟩ := by
  obtain ⟨identity, reason?, hidentify, hidentified⟩ :=
    h.identifies.of_package (h.final_recipe?.symm.trans hrecipe)
  simp only [identifyNode, bind_eq_ok_iff] at hidentify
  obtain ⟨identity', hidentity, verdict, -, hresult⟩ := hidentify
  obtain ⟨rfl, -⟩ := Prod.mk.inj (Except.ok.inj hresult)
  refine ⟨identity'.id, ?_, ?_⟩
  · rw [h.sameIdentity.id_eq, hidentified]
    rfl
  · rw [s.contributions_final, h.sameIdentity.requested_eq, h.sameIdentity.info_eq, hidentified]
    exact hidentity

private theorem id?_final_of_virtual (hrecipe : h.final.recipe? = none) : h.final.id? = none := by
  obtain ⟨hidentified, -⟩ := h.of_virtual hrecipe
  obtain ⟨requested, hconfigured⟩ := exists_requested h.configuresNode
  rw [h.sameIdentity.id_eq, hidentified, hconfigured,
    (s.isSound.entered i h.built h.built_eq).eq_new]
  rfl

end History

private theorem isPackage_final_iff {r : Reference} :
    s.final.IsPackage i r ↔ s.built.IsPackage i r := by
  constructor
  · rintro ⟨n, hn, hpackage, hreference⟩
    obtain ⟨h, rfl⟩ := s.history_of_final hn
    rw [isVirtual_final_eq] at hpackage
    exact ⟨h.built, h.built_eq, hpackage, h.reference_eq_built.symm.trans hreference⟩
  · rintro ⟨n, hn, hpackage, hreference⟩
    obtain ⟨h⟩ := s.exists_history (Graph.lt_size_of_getElem? hn)
    obtain rfl := Option.some.inj (h.built_eq.symm.trans hn)
    rw [← isVirtual_final_eq] at hpackage
    exact ⟨h.final, h.final_eq, hpackage, h.reference_eq_built.trans hreference⟩

theorem namesUnique_final : s.final.NamesUnique := by
  intro i j r r' hr hr'
  rw [isPackage_final_iff] at hr hr'
  exact s.isSound.namesUnique i j r r' hr hr'

theorem hasCurrentIdentities (s : Stages resolver request) :
    s.final.HasCurrentIdentities request.profile resolver.config.mode where
  configured i n recipe hn hrecipe := by
    obtain ⟨h, rfl⟩ := s.history_of_final hn
    exact h.configure_final hrecipe
  identified i n recipe hn hrecipe := by
    obtain ⟨h, rfl⟩ := s.history_of_final hn
    exact h.identify_final hrecipe
  anonymous i n hn hrecipe := by
    obtain ⟨h, rfl⟩ := s.history_of_final hn
    exact h.id?_final_of_virtual hrecipe
  closureIdentified i j hj := by
    obtain ⟨h, hpackage⟩ := exists_package_of_mem_identityClosure hj
    obtain ⟨recipe, hrecipe⟩ := Option.isSome_iff_exists.mp (Option.isNone_eq_false_iff.mp hpackage)
    obtain ⟨id, hid, -⟩ := h.identify_final hrecipe
    exact ⟨h.final, id, h.final_eq, hid⟩
  closureEmbedded hmode i j hj n id hn hid := by
    refine namesUnique_final.get?_contributions (fun k hk => ?_) hj hn ?_
    · obtain ⟨h, hpackage⟩ := exists_package_of_mem_identityClosure hk
      exact ⟨_, h.final, h.final_eq, hpackage, rfl⟩
    · rw [hmode, hid]
      rfl

end Resolver.Stages

/-- Whenever a resolution succeeds, its packages are configured as requested and have the identities
that its final graph gives them. -/
theorem Resolver.hasCurrentIdentities_of_resolve {resolver : Resolver} {request : ResolveRequest}
    {r : Resolution} (h : (resolver.resolve request).1 = .ok r) :
    r.graph.HasCurrentIdentities request.profile resolver.config.mode := by
  obtain ⟨s, hfinal⟩ := resolve_eq_ok_iff.mp h
  rw [← hfinal]
  exact s.hasCurrentIdentities

/-- A resolver for a catalog without binaries, where whole packages go into identities. -/
def Resolver.ofCatalog (catalog : Catalog) : Resolver where
  catalog := catalog
  stores := ⟨.empty "local", []⟩
  config := { GlobalConfig.default with mode := .fullPackage }

theorem Resolver.hasCurrentIdentities_ofLibrary :
    ∃ r, ((ofCatalog (.ofLibrary .none)).resolve
        ⟨.package (.ofTexts "app" "1.0"), ∅, .everyMissing⟩).1 = .ok r ∧
      r.graph.identityClosure 0 = [1] ∧ r.graph.HasCurrentIdentities ∅ .fullPackage := by
  have hclosure : ((ofCatalog (.ofLibrary .none)).resolve
      ⟨.package (.ofTexts "app" "1.0"), ∅, .everyMissing⟩).1.toOption.map
        (·.graph.identityClosure 0) = some [1] := by decide +kernel
  obtain ⟨r, h, hshown⟩ := exists_ok_of_map_toOption hclosure
  exact ⟨r, h, hshown, hasCurrentIdentities_of_resolve h⟩

end Provision
