import Provision.Proofs.Resolution.Plan

/-!
Resolutions after the builds that they have asked for. Once the local store has what was to be
built, resolving the same request again builds nothing: a package that was built is now in the local
store, and a package whose decision was hidden because nobody needed it is still not needed.
-/

namespace Provision

/-- A store has received some binaries: it has them, and what it had before. -/
structure Store.Receives (old : Store) (keys : List BinaryKey) (new : Store) : Prop
    extends old.Grows new where
  received : ∀ key ∈ keys, new.Has key

def MemoryStore.insertAll (s : MemoryStore) (keys : List BinaryKey) : MemoryStore :=
  keys.foldl insert s

/-- What the packages of a graph that have to be built are stored under. -/
def Graph.buildKeys (g : Graph) : List BinaryKey :=
  (g.nodes.filter (·.status? == some .build)).filterMap (·.binaryKey?)

namespace MemoryStore

variable {s : MemoryStore} {key : BinaryKey} {keys : List BinaryKey}

private theorem insertAll_frame (s : MemoryStore) (keys : List BinaryKey) :
    (s.insertAll keys).name = s.name ∧ (s.insertAll keys).isOffline = s.isOffline := by
  induction keys generalizing s with
  | nil => exact ⟨rfl, rfl⟩
  | cons key keys ih => exact ih (s.insert key)

private theorem mem_insertAll_iff :
    key ∈ (s.insertAll keys).binaries ↔ key ∈ keys ∨ key ∈ s.binaries := by
  induction keys generalizing s with
  | nil => simp [insertAll]
  | cons first keys ih =>
    have hrest : key ∈ ((s.insert first).insertAll keys).binaries ↔ _ := ih
    rw [insert, List.mem_insert_iff] at hrest
    rw [List.mem_cons, or_assoc, or_left_comm]
    exact hrest

/-- A store in memory receives what is added to it while it is online. -/
theorem receives_insertAll (honline : s.isOffline = false) (keys : List BinaryKey) :
    s.toStore.Receives keys (s.insertAll keys).toStore := by
  obtain ⟨hname, hoffline⟩ := s.insertAll_frame keys
  refine ⟨grows_toStore hname hoffline fun key hkey => mem_insertAll_iff.mpr (.inr hkey),
    fun key hkey => ?_⟩
  exact has_toStore_iff.mpr ⟨hoffline.trans honline, mem_insertAll_iff.mpr (.inl hkey)⟩

end MemoryStore

/-- Stores gain binaries when the local one receives some. -/
theorem Store.Receives.grows_stores {stores : Stores} {keys : List BinaryKey} {cache : Store}
    (h : stores.cache.Receives keys cache) : stores.Grows { stores with cache } :=
  ⟨h.toGrows, List.forall₂_same.mpr fun store _ => .refl store⟩

/-- A valid node whose binary is in the local store rests on it, even if its build is forced. -/
theorem DecisionContext.status_of_cached {k : DecisionContext} {g : Graph} {i : Nat} {n : Node}
    {id : PackageId} {d : Decision} (hvalid : n.invalid? = none) (hid : n.id? = some id)
    (hcached : (k.stores.locate (.of n.reference id)).location? = some .cache)
    (h : k.decide g i n = .ok d) : d.status = .cache := by
  simp only [decide, hid, hvalid, Option.isSome_none, Bool.false_eq_true, if_false, decideValid,
    hcached] at h
  rw [← Except.ok.inj h]
  rfl

namespace Graph

variable {g : Graph} {i : Nat} {n : Node} {id : PackageId}

private theorem mem_buildKeys (hn : g.nodes[i]? = some n) (hbuild : n.status? = some .build)
    (hid : n.id? = some id) : .of n.reference id ∈ g.buildKeys := by
  refine List.mem_filterMap.mpr ⟨n, List.mem_filter.mpr ⟨List.mem_of_getElem? hn, ?_⟩, ?_⟩
  · rw [hbuild]
    rfl
  · rw [Node.binaryKey?, hid]
    rfl

end Graph

namespace Resolver

variable {resolver resolver' : Resolver} {request : ResolveRequest}

namespace Stages

variable {s : Stages resolver request} {s' : Stages resolver' request} {i : Nat}

/-- A package that is built, in a resolution without invalid nodes, is valid and was to be built. -/
theorem History.valid_of_build (h : s.History i) (hvalid : ∀ j, ¬s.final.InvalidAt j)
    (hbuild : h.final.status? = some .build) :
    h.final.isVirtual = false ∧ h.identified.invalid? = none := by
  have hstatus := h.status?_of_valid hvalid
  rw [hbuild] at hstatus
  split at hstatus
  · cases hstatus
  · obtain ⟨d, hd, hbuilt⟩ := Option.map_eq_some_iff.mp hstatus.symm
    have hdecides := DecisionContext.decidesAs_of_decide (h.decide_eq_of_decision hd)
    exact ⟨h.isVirtual_of_decision hd, hdecides.invalid?_of_build hbuilt⟩

/-- Once the local store has what a ready resolution builds, everything is idle. -/
theorem Grown.idleAt_of_cached (hgrown : s.Grown s') (hvalid : ∀ j, ¬s.final.InvalidAt j)
    (hpresent : ∀ j, ¬s.final.MissingAt j)
    (hcached : ∀ key ∈ s.final.buildKeys,
      (resolver'.stores.locate key).location? = some .cache) (hi : i < s.final.size) :
    s'.final.IdleAt i := by
  obtain ⟨⟨h⟩, ⟨h'⟩⟩ := hgrown.exists_history hi
  rcases h.status?_of_ready hvalid hpresent with hbuild | hidle
  · obtain ⟨hpackage, hown⟩ := h.valid_of_build hvalid hbuild
    obtain ⟨recipe, hrecipe⟩ := Option.isSome_iff_exists.mp (Option.isNone_eq_false_iff.mp hpackage)
    obtain ⟨-, -, -, -, hidentified, -⟩ := h.of_package hrecipe
    obtain ⟨id, hid⟩ := Option.isSome_iff_exists.mp hidentified
    have hkey := Graph.mem_buildKeys h.final_eq hbuild (h.sameIdentity.id_eq.trans hid)
    rw [h.sameIdentity.reference_eq] at hkey
    -- the node is decided again, and now its binary is found
    obtain ⟨d, hd, hdecide, -⟩ := h'.exists_decision ((hgrown.isVirtual_eq h h').trans hpackage)
    rw [hgrown.node_eq h h'] at hdecide
    have hstatus : d.status = .cache :=
      DecisionContext.status_of_cached hown hid (hcached _ hkey) hdecide
    rw [h'.idleAt_iff, Node.status, h'.status?_of_valid (hgrown.not_invalidAt hvalid), hd]
    split
    · exact .inr rfl
    · exact .inl (congrArg BinaryStatus.hasBinary hstatus)
  · exact hgrown.idleAt hvalid i hi hidle

end Stages

/-- Building what a ready resolution asks for, and storing it in the local store, is the end of it:
the same request resolves again, is ready, gives every node the same identity, and builds nothing,
not even where a build is forced. -/
theorem resolve_again_of_ready {r : Resolution} {cache : Store} (executor : Executor)
    (h : (resolver.resolve request).1 = .ok r) (hready : r.outcome = .ready)
    (hcache : resolver.stores.cache.Receives r.graph.buildKeys cache) :
    ∃ r', ({ resolver with stores := { resolver.stores with cache }, executor }.resolve
        request).1 = .ok r' ∧ r'.outcome = .ready ∧
      r'.graph.nodes.map (fun n => (n.reference, n.id?)) =
        r.graph.nodes.map (fun n => (n.reference, n.id?)) ∧
      ∀ n ∈ r'.graph.nodes,
        n.status? = some .cache ∨ n.status? = some .download ∨ n.status? = some .skip := by
  obtain ⟨s, hfinal⟩ := resolve_eq_ok_iff.mp h
  obtain ⟨hvalid, hpresent⟩ := Resolution.outcome_eq_ready_iff.mp hready
  rw [← hfinal] at hvalid hpresent hcache ⊢
  obtain ⟨s', hgrown⟩ := s.exists_grown executor hcache.grows_stores
  have hidle {i : Nat} (hi : i < s.final.size) : s'.final.IdleAt i :=
    hgrown.idleAt_of_cached hvalid hpresent
      (fun key hkey => Stores.locate_eq_cache_iff.mpr (hcache.received key hkey)) hi
  refine ⟨⟨s'.final⟩, resolve_eq_ok_iff.mpr ⟨s', rfl⟩, ?_, ?_, fun n hn => ?_⟩
  · refine Resolution.outcome_eq_ready_iff.mpr ⟨hgrown.not_invalidAt hvalid, fun i hmissing => ?_⟩
    exact hpresent i (hgrown.missingAt hvalid hmissing)
  · refine List.ext_getElem? fun i => ?_
    rw [List.getElem?_map, List.getElem?_map, s'.map_node_final, s.map_node_final,
      hgrown.identified_eq]
  · obtain ⟨i, hi⟩ := List.mem_iff_getElem?.mp hn
    obtain ⟨m, hm, hstatus⟩ := hidle (hgrown.size_eq ▸ Graph.lt_size_of_getElem? hi)
    obtain rfl := Option.some.inj (hi.symm.trans hm)
    exact n.status?_of_idle hstatus

theorem resolve_again_ofForcedBuild :
    let request : ResolveRequest := ⟨.package (.ofTexts "app" "1.0"), ∅,
      ⟨.every, [⟨⟨"app".toList.map .literal, "app"⟩⟩]⟩⟩
    let resolver := ofBinaries []
    ∃ r r', (resolver.resolve request).1 = .ok r ∧
      r.outcome = .ready ∧ r.graph.nodes.map (·.status?) = [some .build, some .build] ∧
      let cache := (MemoryStore.named "local").insertAll r.graph.buildKeys
      ({ resolver with stores := { resolver.stores with cache := cache.toStore } }.resolve
        request).1 = .ok r' ∧ r'.outcome = .ready ∧
      r'.graph.nodes.map (fun n => (n.reference, n.id?)) =
        r.graph.nodes.map (fun n => (n.reference, n.id?)) ∧
      ∀ n ∈ r'.graph.nodes,
        n.status? = some .cache ∨ n.status? = some .download ∨ n.status? = some .skip := by
  intro request resolver
  have hview : (resolver.resolve request).1.toOption.map (fun r =>
      (r.outcome, r.graph.nodes.map (·.status?))) =
        some (.ready, [some .build, some .build]) := by decide +kernel
  obtain ⟨r, h, hshown⟩ := exists_ok_of_map_toOption hview
  obtain ⟨hready, hbuild⟩ := Prod.mk.inj hshown
  have hcache : (MemoryStore.named "local").toStore.Receives r.graph.buildKeys
      ((MemoryStore.named "local").insertAll r.graph.buildKeys).toStore :=
    MemoryStore.receives_insertAll rfl r.graph.buildKeys
  obtain ⟨r', h', hagain⟩ := resolve_again_of_ready .inOrder h hready hcache
  exact ⟨r, r', h, hready, hbuild, h', hagain⟩

end Resolver

end Provision
