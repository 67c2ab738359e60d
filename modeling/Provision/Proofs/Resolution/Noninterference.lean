import Provision.Proofs.Resolution.Sensitivity

/-!
What identities do not tell. The identity of a package comes from its own requested configuration
and from what its dependencies contribute, and only where whole packages go into identities does a
contribution depend on more than a reference. So the way in which other packages are configured
leaves no trace, unless whole packages go in and the other package is reachable.
-/

namespace Provision

/-- Unless whole packages go into identities, a dependency contributes nothing but its reference. -/
theorem IdentityMode.render_congr {mode : IdentityMode} (hmode : mode ≠ .fullPackage)
    (r : Reference) (id? id'? : Option PackageId) : mode.render r id? = mode.render r id'? := by
  cases mode with
  | fullPackage => exact absurd rfl hmode
  | _ => rfl

namespace Graph

/-- The node of an index has the same requested configuration in two graphs. -/
def SameRequest (g g' : Graph) (i : Nat) : Prop :=
  g'.nodes[i]?.map (·.requested) = g.nodes[i]?.map (·.requested)

instance (g g' : Graph) (i : Nat) : Decidable (g.SameRequest g' i) :=
  inferInstanceAs (Decidable (_ = _))

/-- The node of an index has the same identity in two graphs, from the same configuration. -/
def SameIdentity (g g' : Graph) (i : Nat) : Prop :=
  ∀ n n', g.nodes[i]? = some n → g'.nodes[i]? = some n' → n.isVirtual = false →
    n'.info = n.info ∧ n'.id? = n.id?

variable {g g' : Graph} {profile profile' : Profile} {mode : IdentityMode} {i j : Nat}
  {layers : List (List Nat)}

private theorem SameRequest.requested_eq {n n' : Node} (h : g.SameRequest g' i)
    (hn : g.nodes[i]? = some n) (hn' : g'.nodes[i]? = some n') : n'.requested = n.requested := by
  rw [SameRequest, hn, hn'] at h
  exact Option.some.inj h

/-- Everything in a closure is below some direct dependency. -/
theorem exists_hasEdge_of_mem_identityClosure (h : j ∈ g.identityClosure i) :
    ∃ a, g.HasEdge i a ∧ g.Reaches a j := by
  obtain ⟨a, ha, hexposes⟩ := mem_identityClosure_iff.mp h
  refine ⟨a, ha, Relation.ReflTransGen.mono (p := g.HasEdge) (fun b c hbc => ?_) a j hexposes⟩
  exact hasEdge_of_mem_exposed hbc

section Step

variable (hg : g.HasCurrentIdentities profile mode) (hg' : g'.HasCurrentIdentities profile' mode)
  (hsame : g.SamePackages g')

include hg hg' hsame

/-- Contributions can only differ in identities that go into them. -/
theorem contributions_eq_of_sameIdentity
    (hclosure : mode = .fullPackage → ∀ j ∈ g.identityClosure i, g.SameIdentity g' j) :
    g'.contributions mode i = g.contributions mode i := by
  have hsearch : g'.identityClosure i = g.identityClosure i :=
    identityClosure_congr hsame.edges_eq i
  have hcontribution : ∀ j ∈ g.identityClosure i,
      g'.contribution mode j = g.contribution mode j := by
    intro j hj
    obtain ⟨n, id, hn, hid⟩ := hg.closureIdentified i j hj
    obtain ⟨n', id', hn', hid'⟩ := hg'.closureIdentified i j (hsearch ▸ hj)
    have hreference : n'.reference = n.reference := (hsame.nodes_eq j n n' hn hn').1
    have hrender : mode.render n.reference n'.id? = mode.render n.reference n.id? := by
      by_cases hmode : mode = .fullPackage
      · have hpackage : n.isVirtual = false := by
          refine Option.isNone_eq_false_iff.mpr (Option.isSome_iff_ne_none.mpr fun hrecipe => ?_)
          rw [hg.anonymous j n hn hrecipe] at hid
          cases hid
        rw [(hclosure hmode j hj n n' hn hn' hpackage).2]
      · exact IdentityMode.render_congr hmode _ _ _
    rw [contribution_eq, contribution_eq, hn, hn']
    simp only [Option.map_some, Option.bind_some, hreference, hrender]
  rw [contributions, contributions, hsearch, List.filterMap_congr hcontribution]

/-- An identity is that of the requested configuration and of what goes into it. -/
theorem sameIdentity_of_sameRequest (hown : g.SameRequest g' i)
    (hclosure : mode = .fullPackage → ∀ j ∈ g.identityClosure i, g.SameIdentity g' j) :
    g.SameIdentity g' i := by
  intro n n' hn hn' hpackage
  obtain ⟨recipe, hrecipe⟩ := Option.isSome_iff_exists.mp (Option.isNone_eq_false_iff.mp hpackage)
  have hrecipe' : n'.recipe? = some recipe := (hsame.nodes_eq i n n' hn hn').2.trans hrecipe
  obtain ⟨id, hid, hidentify⟩ := hg.identified i n recipe hn hrecipe
  obtain ⟨id', hid', hidentify'⟩ := hg'.identified i n' recipe hn' hrecipe'
  have hcontributions := contributions_eq_of_sameIdentity hg hg' hsame hclosure
  rw [hown.requested_eq hn hn', hcontributions, hidentify] at hidentify'
  obtain ⟨hinfo, rfl⟩ := Identity.mk.inj (Except.ok.inj hidentify')
  exact ⟨hinfo.symm, hid'.trans hid.symm⟩

/-- Identities below a node are the same where the requested configurations below it are. -/
theorem sameIdentity_of_reaches (hlayers : g.IsLayering layers) :
    ∀ i < g.size, (∀ j, g.Reaches i j → g.SameRequest g' j) →
      ∀ j, g.Reaches i j → g.SameIdentity g' j := by
  apply hlayers.induction_up (P := fun i => (∀ j, g.Reaches i j → g.SameRequest g' j) →
    ∀ j, g.Reaches i j → g.SameIdentity g' j)
  intro i hi ih hrequests
  -- what is below a dependency is below the node
  have hbelow : ∀ a, g.HasEdge i a → ∀ j, g.Reaches a j → g.SameIdentity g' j := by
    intro a ha
    exact ih a ha fun j hj => hrequests j (.head ha hj)
  intro j hj
  rcases Relation.ReflTransGen.cases_head hj with rfl | ⟨a, ha, haj⟩
  · apply sameIdentity_of_sameRequest hg hg' hsame (hrequests i .refl)
    intro _ k hk
    obtain ⟨a, ha, hak⟩ := exists_hasEdge_of_mem_identityClosure hk
    exact hbelow a ha k hak
  · exact hbelow a ha j haj

end Step

end Graph

namespace Resolver

variable {resolver resolver' : Resolver} {request request' : ResolveRequest}

/-- In two resolutions of one root over one catalog, a package that is requested in the same way has
the same identity, where whole packages go into identities provided that everything it reaches is
requested in the same way too. -/
theorem identity_eq_of_sameRequest {r r' : Resolution}
    (hcatalog : resolver'.catalog = resolver.catalog)
    (hroot : request'.root = request.root) (hmode : resolver'.config.mode = resolver.config.mode)
    (h : (resolver.resolve request).1 = .ok r) (h' : (resolver'.resolve request').1 = .ok r')
    {i : Nat} {n : Node} (hn : r.graph.nodes[i]? = some n) (hpackage : n.isVirtual = false)
    (hown : r.graph.SameRequest r'.graph i)
    (hbelow : resolver.config.mode = .fullPackage →
      ∀ j, r.graph.Reaches i j → r.graph.SameRequest r'.graph j) :
    ∃ n', r'.graph.nodes[i]? = some n' ∧ n'.reference = n.reference ∧ n'.info = n.info ∧
      n'.id? = n.id? := by
  obtain ⟨s, hfinal⟩ := resolve_eq_ok_iff.mp h
  obtain ⟨s', hfinal'⟩ := resolve_eq_ok_iff.mp h'
  have hbuilt : s'.built = s.built := by
    have hbuild := s'.build_eq
    rw [hcatalog, hroot] at hbuild
    exact Except.ok.inj (hbuild.symm.trans s.build_eq)
  have hcurrent := s.hasCurrentIdentities
  have hcurrent' := s'.hasCurrentIdentities
  have hsame := Stages.samePackages_final hbuilt
  rw [hmode] at hcurrent'
  rw [← hfinal] at hn hown hbelow
  rw [← hfinal'] at hown hbelow ⊢
  have hi : i < s.final.size := Graph.lt_size_of_getElem? hn
  have hi' : i < s'.final.size := by
    rwa [s'.final_frame.2, hbuilt, ← s.final_frame.2]
  obtain ⟨n', hn'⟩ := Graph.exists_getElem?_of_lt_size hi'
  have hidentity : s.final.SameIdentity s'.final i := by
    by_cases hfull : resolver.config.mode = .fullPackage
    · exact Graph.sameIdentity_of_reaches hcurrent hcurrent' hsame
        (s.isLayering_of_frame s.final_frame) i hi (hbelow hfull) i .refl
    · exact Graph.sameIdentity_of_sameRequest hcurrent hcurrent' hsame hown
        fun hfull' => absurd hfull' hfull
  exact ⟨n', hn', (hsame.nodes_eq i n n' hn hn').1, hidentity n n' hn hn' hpackage⟩

/-- The library in the middle of the chain does not notice the system, which the package above it
depends on. -/
theorem identity_eq_ofChain :
    let request (os : String) : ResolveRequest :=
      ⟨.package (.ofTexts "app" "1.0"), .setting (.setting ∅ "arch" "x86") "os" os, .everyMissing⟩
    ∃ r r' n n', ((ofCatalog .ofChain).resolve (request "Linux")).1 = .ok r ∧
      ((ofCatalog .ofChain).resolve (request "Windows")).1 = .ok r' ∧
      ¬r.graph.SameRequest r'.graph 0 ∧ r.graph.SameRequest r'.graph 1 ∧
      (∀ j, r.graph.Reaches 1 j → r.graph.SameRequest r'.graph j) ∧
      r.graph.nodes[1]? = some n ∧ n.isVirtual = false ∧ r'.graph.nodes[1]? = some n' ∧
      n'.reference = n.reference ∧ n'.info = n.info ∧ n'.id? = n.id? := by
  intro request
  have hview (os : String) (hos : os = "Linux" ∨ os = "Windows") :
      ((ofCatalog .ofChain).resolve (request os)).1.toOption.map (fun r =>
        (r.graph.nodes.map (·.requested), r.graph.nodes.map (·.isVirtual),
          decide (∀ e ∈ r.graph.edges, e.source ≤ e.target))) =
        some ([⟨.ofList [("os", os)], ∅, ∅⟩, ∅, ⟨.ofList [("arch", "x86")], ∅, ∅⟩],
          [false, false, false], true) := by
    rcases hos with rfl | rfl <;> decide +kernel
  obtain ⟨r, h, hshown⟩ := exists_ok_of_map_toOption (hview "Linux" (.inl rfl))
  obtain ⟨r', h', hshown'⟩ := exists_ok_of_map_toOption (hview "Windows" (.inr rfl))
  simp only [Prod.mk.injEq, decide_eq_true_eq] at hshown hshown'
  obtain ⟨hrequested, hpackages, hupward⟩ := hshown
  obtain ⟨hrequested', -, -⟩ := hshown'
  have hrequest : ∀ j, r.graph.SameRequest r'.graph j ↔ j ≠ 0 := by
    intro j
    rw [Graph.SameRequest, ← List.getElem?_map, ← List.getElem?_map, hrequested, hrequested']
    cases j with
    | zero => decide
    | succ j => simp
  have hbelow : ∀ j, r.graph.Reaches 1 j → r.graph.SameRequest r'.graph j := by
    intro j hj
    have hle : 1 ≤ j := by
      induction hj with
      | refl => exact Nat.le_refl 1
      | tail _ hedge ih =>
        obtain ⟨e, he, rfl, rfl⟩ := hedge
        exact Nat.le_trans ih (hupward e he)
    exact (hrequest j).mpr (by omega)
  have hsize : 1 < r.graph.size := by
    have hlength := congrArg List.length hrequested
    rw [List.length_map] at hlength
    simp [Graph.size, hlength]
  obtain ⟨n, hn⟩ := Graph.exists_getElem?_of_lt_size hsize
  have hpackage : n.isVirtual = false := by
    have hat := congrArg (·[1]?) hpackages
    rw [List.getElem?_map, hn] at hat
    exact Option.some.inj hat
  have hown := (hrequest 1).mpr Nat.one_ne_zero
  have hroot : (request "Windows").root = (request "Linux").root := rfl
  obtain ⟨n', hn', hidentity⟩ :=
    identity_eq_of_sameRequest rfl hroot rfl h h' hn hpackage hown fun _ => hbelow
  exact ⟨r, r', n, n', h, h', fun hsame => (hrequest 0).mp hsame rfl, hown, hbelow, hn, hpackage, hn',
    hidentity⟩

end Resolver

end Provision
