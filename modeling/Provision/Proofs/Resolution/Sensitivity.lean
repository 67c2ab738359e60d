import Provision.Proofs.CanonicalText
import Provision.Proofs.Resolution.Identities

/-!
What identities tell of the packages below them. Where whole packages go into identities and no hook
prunes them, one identity fixes the configurations of everything that its package reaches, as far as
digests do not collide: the text behind a digest names the identity of each dependency in turn.
-/

namespace Provision

private theorem Configuration.get_eq_of_canonicalText_eq {c d : Configuration}
    (h : c.canonicalText = d.canonicalText) (s : ConfigSection) : c.get s = d.get s :=
  sections_inj (by decide) (String.ofList_inj.mp h) s (by cases s <;> decide)

/-- A profile never requests contributions of dependencies. -/
theorem Profile.requires_of_configure {profile : Profile} {recipe : Recipe} {isRoot : Bool}
    {requested : Configuration} (h : profile.configure recipe isRoot = .ok requested) :
    requested.requires = ∅ := by
  simp only [configure, bind_eq_ok_iff] at h
  obtain ⟨options, -, hrequested⟩ := h
  rw [← Except.ok.inj hrequested]

/-- Of these configurations, no two with different texts have the same digest. -/
def CollisionFree (configurations : List Configuration) : Prop :=
  ∀ c ∈ configurations, ∀ d ∈ configurations,
    (PackageId.compute c).digest = (PackageId.compute d).digest → c.canonicalText = d.canonicalText

instance (configurations : List Configuration) : Decidable (CollisionFree configurations) :=
  inferInstanceAs (Decidable (∀ c ∈ configurations, ∀ d ∈ configurations,
    (PackageId.compute c).digest = (PackageId.compute d).digest →
      c.canonicalText = d.canonicalText))

namespace Graph

/-- The configurations that are hashed for the packages of a graph. -/
def hashed (g : Graph) : List Configuration :=
  (g.nodes.filter (!·.isVirtual)).map (·.info)

def digest? (g : Graph) (i : Nat) : Option String := do
  let n ← g.nodes[i]?
  return (← n.id?).digest

/-- No package of a graph prunes what goes into its identity. -/
def Unpruned (g : Graph) : Prop :=
  ∀ n ∈ g.nodes, ∀ recipe, n.recipe? = some recipe → recipe.hooks.packageId? = none

instance (g : Graph) : Decidable g.Unpruned :=
  inferInstanceAs (Decidable (∀ n ∈ g.nodes, ∀ recipe ∈ n.recipe?, recipe.hooks.packageId? = none))

/-- Two graphs have the same edges between the same packages, whatever their configurations. -/
structure SamePackages (g g' : Graph) : Prop where
  edges_eq : g'.edges = g.edges
  nodes_eq : ∀ (i : Nat) (n n' : Node), g.nodes[i]? = some n → g'.nodes[i]? = some n' →
    n'.reference = n.reference ∧ n'.recipe? = n.recipe?

/-- The package of an index has the same digest in two graphs. -/
def SameDigest (g g' : Graph) (i : Nat) : Prop :=
  ∃ digest, g.digest? i = some digest ∧ g'.digest? i = some digest

variable {g g' : Graph} {profile profile' : Profile} {mode : IdentityMode} {i j : Nat} {n n' : Node}
  {id : PackageId}

private theorem digest?_eq_some_iff {digest : String} :
    g.digest? i = some digest ↔
      ∃ n id, g.nodes[i]? = some n ∧ n.id? = some id ∧ id.digest = digest := by
  simp [digest?, Option.bind_eq_some_iff]

private theorem mem_hashed (hn : g.nodes[i]? = some n) (hpackage : n.isVirtual = false) :
    n.info ∈ g.hashed := by
  apply List.mem_map_of_mem
  rw [List.mem_filter, hpackage]
  exact ⟨List.mem_of_getElem? hn, rfl⟩

/-- The requested configuration and all contributions are hashed for a package without a pruning
hook. -/
theorem HasCurrentIdentities.of_unpruned (h : g.HasCurrentIdentities profile mode)
    (hn : g.nodes[i]? = some n) (hid : n.id? = some id)
    (hunpruned : ∀ recipe, n.recipe? = some recipe → recipe.hooks.packageId? = none) :
    n.isVirtual = false ∧ id = .compute n.info ∧ n.requested.requires = ∅ ∧
      n.info = { n.requested with requires := g.contributions mode i } := by
  cases hrecipe : n.recipe? with
  | none =>
    rw [h.anonymous i n hn hrecipe] at hid
    cases hid
  | some recipe =>
    obtain ⟨id', hid', hidentify⟩ := h.identified i n recipe hn hrecipe
    obtain rfl := Option.some.inj (hid.symm.trans hid')
    simp only [Recipe.identify, Recipe.prunedInfo, hunpruned recipe hrecipe, bind_eq_ok_iff]
      at hidentify
    obtain ⟨info, hinfo, hidentity⟩ := hidentify
    obtain ⟨rfl, rfl⟩ := Identity.mk.inj (Except.ok.inj hidentity)
    refine ⟨by simp [Node.isVirtual, hrecipe], rfl, ?_, (Except.ok.inj hinfo).symm⟩
    exact Profile.requires_of_configure (h.configured i n recipe hn hrecipe)

private theorem SameDigest.exists_nodes (h : g.SameDigest g' i) :
    ∃ n n', g.nodes[i]? = some n ∧ g'.nodes[i]? = some n' := by
  obtain ⟨digest, hdigest, hdigest'⟩ := h
  obtain ⟨n, _, hn, -⟩ := digest?_eq_some_iff.mp hdigest
  obtain ⟨n', _, hn', -⟩ := digest?_eq_some_iff.mp hdigest'
  exact ⟨n, n', hn, hn'⟩

section Step

variable (hg : g.HasCurrentIdentities profile .fullPackage)
  (hg' : g'.HasCurrentIdentities profile' .fullPackage) (hsame : g.SamePackages g')
  (hunpruned : g.Unpruned) (hcollision : CollisionFree (g.hashed ++ g'.hashed))

include hg hg' hsame hunpruned hcollision

/-- One digest is of one requested configuration, with one set of contributions. -/
theorem SameDigest.requested_eq (h : g.SameDigest g' i) (hn : g.nodes[i]? = some n)
    (hn' : g'.nodes[i]? = some n') :
    n'.requested = n.requested ∧
      g'.contributions .fullPackage i = g.contributions .fullPackage i := by
  obtain ⟨digest, hdigest, hdigest'⟩ := h
  obtain ⟨m, id, hm, hid, rfl⟩ := digest?_eq_some_iff.mp hdigest
  obtain ⟨m', id', hm', hid', hdigest⟩ := digest?_eq_some_iff.mp hdigest'
  obtain rfl := Option.some.inj (hn.symm.trans hm)
  obtain rfl := Option.some.inj (hn'.symm.trans hm')
  have hfree := hunpruned n (List.mem_of_getElem? hn)
  obtain ⟨hpackage, rfl, hnone, hinfo⟩ := hg.of_unpruned hn hid hfree
  obtain ⟨hpackage', rfl, hnone', hinfo'⟩ :=
    hg'.of_unpruned hn' hid' ((hsame.nodes_eq i n n' hn hn').2 ▸ hfree)
  have htext : n'.info.canonicalText = n.info.canonicalText := by
    apply hcollision _ _ _ _ hdigest
    · exact List.mem_append_right _ (mem_hashed hn' hpackage')
    · exact List.mem_append_left _ (mem_hashed hn hpackage)
  have hget := Configuration.get_eq_of_canonicalText_eq htext
  rw [hinfo, hinfo'] at hget
  have hsettings : n'.requested.settings = n.requested.settings := hget .settings
  have hoptions : n'.requested.options = n.requested.options := hget .options
  refine ⟨?_, hget .requires⟩
  cases hrequested : n.requested
  cases hrequested' : n'.requested
  simp_all

/-- A digest tells those of the direct dependencies. -/
theorem SameDigest.of_hasEdge (h : g.SameDigest g' i) (hij : g.HasEdge i j) :
    g.SameDigest g' j := by
  have hcontributions : g'.contributions .fullPackage i = g.contributions .fullPackage i := by
    obtain ⟨n, n', hn, hn'⟩ := h.exists_nodes
    exact (h.requested_eq hg hg' hsame hunpruned hcollision hn hn').2
  have hj : j ∈ g.identityClosure i := mem_identityClosure_of_hasEdge hij
  have hj' : j ∈ g'.identityClosure i := by rwa [identityClosure_congr hsame.edges_eq]
  obtain ⟨m, id, hm, hid⟩ := hg.closureIdentified i j hj
  obtain ⟨m', id', hm', hid'⟩ := hg'.closureIdentified i j hj'
  have hembedded := hg.closureEmbedded rfl i j hj m id hm hid
  have hembedded' := hg'.closureEmbedded rfl i j hj' m' id' hm' hid'
  rw [hcontributions, (hsame.nodes_eq j m m' hm hm').1, hembedded] at hembedded'
  -- the text names the package, which is the same in both graphs, and then the digest
  have htail := (String.append_right_inj _).mp (Option.some.inj hembedded')
  have hdigest := (String.append_right_inj _).mp htail
  exact ⟨id.digest, digest?_eq_some_iff.mpr ⟨m, id, hm, hid, rfl⟩,
    digest?_eq_some_iff.mpr ⟨m', id', hm', hid', hdigest.symm⟩⟩

private theorem SameDigest.of_reaches (h : g.SameDigest g' i) (hij : g.Reaches i j) :
    g.SameDigest g' j := by
  -- edge by edge: a closure alone ends where a dependency exposes nothing
  induction hij with
  | refl => exact h
  | tail _ hedge ih => exact ih.of_hasEdge hg hg' hsame hunpruned hcollision hedge

end Step

end Graph

namespace Resolver

variable {resolver resolver' : Resolver} {request request' : ResolveRequest}

namespace Stages

/-- Resolutions of one root over one catalog differ in the configurations of packages only. -/
theorem samePackages_final {s : Stages resolver request} {s' : Stages resolver' request'}
    (hbuilt : s'.built = s.built) : s.final.SamePackages s'.final where
  edges_eq := by rw [s.final_frame.1, s'.final_frame.1, hbuilt]
  nodes_eq i n n' hn hn' := by
    obtain ⟨h, rfl⟩ := s.history_of_final hn
    obtain ⟨h', rfl⟩ := s'.history_of_final hn'
    have hsame : h'.built = h.built :=
      Option.some.inj (h'.built_eq.symm.trans (hbuilt ▸ h.built_eq))
    rw [h.reference_eq_built, h'.reference_eq_built, h.recipe?_eq_built, h'.recipe?_eq_built, hsame]
    exact ⟨rfl, rfl⟩

end Stages

/-- Where whole packages go into identities, and unless digests collide, a package that has the same
identity in two resolutions reaches the same configurations in both. -/
theorem requested_eq_of_reaches {r r' : Resolution}
    (hcatalog : resolver'.catalog = resolver.catalog)
    (hroot : request'.root = request.root) (hmode : resolver.config.mode = .fullPackage)
    (hmode' : resolver'.config.mode = .fullPackage) (h : (resolver.resolve request).1 = .ok r)
    (h' : (resolver'.resolve request').1 = .ok r') (hunpruned : r.graph.Unpruned)
    (hcollision : CollisionFree (r.graph.hashed ++ r'.graph.hashed)) {i : Nat}
    (hdigest : r.graph.SameDigest r'.graph i) :
    ∀ j, r.graph.Reaches i j → ∃ m m', r.graph.nodes[j]? = some m ∧ r'.graph.nodes[j]? = some m' ∧
      m'.reference = m.reference ∧ m'.requested = m.requested := by
  obtain ⟨s, hfinal⟩ := resolve_eq_ok_iff.mp h
  obtain ⟨s', hfinal'⟩ := resolve_eq_ok_iff.mp h'
  have hbuilt : s'.built = s.built := by
    have hbuild := s'.build_eq
    rw [hcatalog, hroot] at hbuild
    exact Except.ok.inj (hbuild.symm.trans s.build_eq)
  have hcurrent := s.hasCurrentIdentities
  have hcurrent' := s'.hasCurrentIdentities
  have hsame := Stages.samePackages_final hbuilt
  rw [hfinal, hmode] at hcurrent
  rw [hfinal', hmode'] at hcurrent'
  rw [hfinal, hfinal'] at hsame
  intro j hj
  have hreached := hdigest.of_reaches hcurrent hcurrent' hsame hunpruned hcollision hj
  obtain ⟨m, m', hm, hm'⟩ := hreached.exists_nodes
  have hrequested := hreached.requested_eq hcurrent hcurrent' hsame hunpruned hcollision hm hm'
  exact ⟨m, m', hm, hm', (hsame.nodes_eq j m m' hm hm').1, hrequested.1⟩

end Resolver

/-- A catalog with a package that depends on the system, above a library that hides another one,
which depends on the processor. -/
def Catalog.ofChain : Catalog :=
  let requirement (name version : String) : Requirement :=
    ⟨.ofText name, .exact (.ofText version), false, false⟩
  let recipe (name version : String) (settings : List String) (requires : List Requirement) :
      Recipe := ⟨.ofTexts name version, settings, ∅, requires, .none⟩
  .ofIndex <| [recipe "crt" "1.2" ["arch"] [], recipe "zlib" "1.3" [] [requirement "crt" "1.2"],
    recipe "app" "1.0" ["os"] [requirement "zlib" "1.3"]].foldl .upsert .empty

def Catalog.hashedInChain (os : String) : List Configuration :=
  [⟨.ofList [("os", os)], ∅, .ofList [("zlib",
      "zlib/1.3:f3248d84eb69c852dd36c7bb321d1469ae62a39182b956c60eccc4388836d5a7")]⟩,
    ⟨∅, ∅, .ofList [("crt",
      "crt/1.2:1e312d0a3c5064209ee6df178c1ad773c49984ebcef9242cf103a37f1cec53d8")]⟩,
    ⟨.ofList [("arch", "x86")], ∅, ∅⟩]

theorem Resolver.requested_eq_ofChain :
    let request (os : String) : ResolveRequest :=
      ⟨.package (.ofTexts "app" "1.0"), .setting (.setting ∅ "arch" "x86") "os" os, .everyMissing⟩
    ∃ r r', ((ofCatalog .ofChain).resolve (request "Linux")).1 = .ok r ∧
      ((ofCatalog .ofChain).resolve (request "Windows")).1 = .ok r' ∧
      r.graph.Unpruned ∧ CollisionFree (r.graph.hashed ++ r'.graph.hashed) ∧
      r.graph.SameDigest r'.graph 1 ∧ r.graph.hashed ≠ r'.graph.hashed ∧
      r.graph.Reaches 1 2 ∧ ∃ m m', r.graph.nodes[2]? = some m ∧ r'.graph.nodes[2]? = some m' ∧
        m'.reference = m.reference ∧ m'.requested = m.requested := by
  intro request
  have hview : ((ofCatalog .ofChain).resolve (request "Linux")).1.toOption.map (fun r =>
      (r.graph.hashed, r.graph.digest? 1, decide (r.graph.Unpruned ∧ r.graph.HasEdge 1 2))) =
      some (Catalog.hashedInChain "Linux",
        some "f3248d84eb69c852dd36c7bb321d1469ae62a39182b956c60eccc4388836d5a7", true) := by
    decide +kernel
  have hview' : ((ofCatalog .ofChain).resolve (request "Windows")).1.toOption.map (fun r =>
      (r.graph.hashed, r.graph.digest? 1)) =
      some (Catalog.hashedInChain "Windows",
        some "f3248d84eb69c852dd36c7bb321d1469ae62a39182b956c60eccc4388836d5a7") := by
    decide +kernel
  obtain ⟨r, h, hshown⟩ := exists_ok_of_map_toOption hview
  obtain ⟨r', h', hshown'⟩ := exists_ok_of_map_toOption hview'
  simp only [Prod.mk.injEq, decide_eq_true_eq] at hshown hshown'
  obtain ⟨hhashed, hdigest, hunpruned, hedge⟩ := hshown
  obtain ⟨hhashed', hdigest'⟩ := hshown'
  have hcollision : CollisionFree (r.graph.hashed ++ r'.graph.hashed) := by
    rw [hhashed, hhashed']
    decide +kernel
  have hdiffers : r.graph.hashed ≠ r'.graph.hashed := by
    rw [hhashed, hhashed']
    decide +kernel
  have hroot : (request "Windows").root = (request "Linux").root := rfl
  exact ⟨r, r', h, h', hunpruned, hcollision, ⟨_, hdigest, hdigest'⟩, hdiffers, .single hedge,
    requested_eq_of_reaches rfl hroot rfl rfl h h' hunpruned hcollision ⟨_, hdigest, hdigest'⟩ 2
      (.single hedge)⟩

end Provision
