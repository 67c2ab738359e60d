import Provision.Proofs.Resolution.Binaries

/-!
Fetching what a resolution has located. A binary is located on one remote and asked for by the name
of that remote, so that the first remote of a name answers for all of them. Fetching delivers one
handle for each node that has to be fetched, unless a remote that does not serve a binary stands
before the one of its name that does.
-/

namespace Provision

/-- The binary of a node, in the store where it was located. -/
def Node.located? (n : Node) : Option BinaryHandle := do
  return ⟨.of n.reference (← n.effectiveId?), ← n.remote?⟩

/-- The first remote of the name of a store answers a query for a binary with an error. -/
def Stores.Refuse (stores : Stores) (handle : BinaryHandle) (e : StoreError) : Prop :=
  ∃ front, stores.remote? handle.store = some front ∧ front.fetch handle.key = .error e

/-- Each node that has to be fetched is a package, and a remote serves its binary where it was
located. -/
def Resolution.AllLocated (r : Resolution) (stores : Stores) : Prop :=
  ∀ n ∈ r.graph.downloads, n.isVirtual = false ∧ ∃ handle, n.located? = some handle ∧
    stores.Serve handle.key .download (some handle.store)

/-- Handles are those of the located binaries that have to be fetched, each once, by reference. -/
structure Resolution.Delivers (r : Resolution) (handles : List BinaryHandle) : Prop where
  perm : (handles.map some).Perm (r.graph.downloads.map Node.located?)
  sorted : handles.Pairwise fun a b => compare a.key.reference b.key.reference = .lt

/-- Fetching the binaries of a resolution delivers all that was located, or fails because the first
remote of some name does not serve what was located behind it. -/
structure Resolution.FetchesLocated (r : Resolution) (stores : Stores) : Prop where
  located : r.AllLocated stores
  delivers : ∀ handles, r.fetch stores = .ok handles → r.Delivers handles
  refused : ∀ e, r.fetch stores = .error e →
    ∃ n ∈ r.graph.downloads, ∃ handle, n.located? = some handle ∧ stores.Refuse handle e
  fails : ∀ n ∈ r.graph.downloads, ∀ handle e, n.located? = some handle →
    stores.Refuse handle e → ∃ e', r.fetch stores = .error e'
  /-- Remotes with names of their own never stand before each other. -/
  succeeds : (stores.remotes.map (·.name)).Nodup → ∃ handles, r.fetch stores = .ok handles

private theorem Node.located?_eq_some_iff {n : Node} {handle : BinaryHandle} :
    n.located? = some handle ↔
      ∃ id store, n.effectiveId? = some id ∧ n.remote? = some store ∧
        handle = ⟨.of n.reference id, store⟩ := by
  unfold located?
  cases n.effectiveId? with
  | none => simp
  | some id =>
    cases n.remote? with
    | none => simp
    | some store => simp [eq_comm]

private theorem Node.reference_of_located? {n : Node} {handle : BinaryHandle}
    (h : n.located? = some handle) : handle.key.reference = n.reference := by
  obtain ⟨id, store, -, -, rfl⟩ := located?_eq_some_iff.mp h
  rfl

private theorem Store.fetch_eq_ok_iff {store : Store} {key : BinaryKey} {handle : BinaryHandle} :
    store.fetch key = .ok handle ↔ store.Has key ∧ handle = ⟨key, store.name⟩ := by
  rw [fetch, bind_eq_ok_iff]
  constructor
  · rintro ⟨held, hexists, hfetch⟩
    cases held with
    | false => cases hfetch
    | true =>
      cases hfetch
      exact ⟨hexists, rfl⟩
  · rintro ⟨hexists, rfl⟩
    exact ⟨true, hexists, rfl⟩

namespace Stores

variable {stores : Stores} {n : Node} {handle handle' : BinaryHandle} {e : StoreError}
  {key : BinaryKey} {name : String} {front : Store}

private theorem name_of_remote? (h : stores.remote? name = some front) : front.name = name := by
  have hfound := List.find?_some h
  exact beq_iff_eq.mp hfound

/-- Where something is served, there is a first remote of the name. -/
theorem Serve.exists_remote? (h : stores.Serve key .download (some name)) :
    ∃ front, stores.remote? name = some front := by
  cases h with
  | @download store hremote hhas =>
    refine Option.isSome_iff_exists.mp (List.find?_isSome.mpr ⟨store, hremote, ?_⟩)
    exact beq_self_eq_true store.name

/-- Where names are unique, the first remote of a name is the one that serves. -/
theorem Serve.has_remote? (h : stores.Serve key .download (some name))
    (hnames : (stores.remotes.map (·.name)).Nodup) (hfront : stores.remote? name = some front) :
    front.Has key := by
  cases h with
  | @download store hremote hhas =>
    have hsame : front = store :=
      List.inj_on_of_nodup_map hnames (List.mem_of_find?_eq_some hfront) hremote
        (name_of_remote? hfront)
    exact hsame ▸ hhas

private theorem fetchNode_eq (hlocated : n.located? = some handle)
    (hfront : stores.remote? handle.store = some front) :
    stores.fetchNode n = front.fetch handle.key := by
  obtain ⟨id, store, hid, hremote, rfl⟩ := Node.located?_eq_some_iff.mp hlocated
  simp only [fetchNode, hremote, Option.getD_some, hfront, hid]

/-- A located binary is refused, or it is what a fetch yields. -/
theorem fetchNode_cases (hlocated : n.located? = some handle)
    (hserve : stores.Serve handle.key .download (some handle.store)) :
    stores.fetchNode n = .ok handle ∨
      ∃ e, stores.fetchNode n = .error e ∧ stores.Refuse handle e := by
  obtain ⟨front, hfront⟩ := hserve.exists_remote?
  rw [fetchNode_eq hlocated hfront]
  cases hfetch : front.fetch handle.key with
  | error e => exact .inr ⟨e, rfl, front, hfront, hfetch⟩
  | ok handle' =>
    obtain ⟨-, rfl⟩ := Store.fetch_eq_ok_iff.mp hfetch
    rw [name_of_remote? hfront]
    exact .inl rfl

private theorem Refuse.fetchNode_eq
    (h : stores.Refuse handle e) (hlocated : n.located? = some handle) :
    stores.fetchNode n = .error e := by
  obtain ⟨front, hfront, hfetch⟩ := h
  rw [Stores.fetchNode_eq hlocated hfront, hfetch]

/-- Where names are unique, nothing that is served is refused. -/
theorem Serve.not_refuse (h : stores.Serve handle.key .download (some handle.store))
    (hnames : (stores.remotes.map (·.name)).Nodup) : ¬stores.Refuse handle e := by
  rintro ⟨front, hfront, hfetch⟩
  have hhas := h.has_remote? hnames hfront
  rw [Store.fetch_eq_ok_iff.mpr ⟨hhas, rfl⟩] at hfetch
  cases hfetch

end Stores

namespace Graph

variable {g : Graph} {n : Node}

private theorem mem_downloads_iff :
    n ∈ g.downloads ↔ ∃ i : Nat, g.nodes[i]? = some n ∧ n.status? = some .download := by
  rw [downloads, List.mem_filter, List.mem_iff_getElem?, beq_iff_eq]
  exact exists_and_right.symm

/-- Where names are unique, so are the references of the packages among some nodes. -/
theorem NamesUnique.nodup_references (h : g.NamesUnique) {p : Node → Bool}
    (hp : ∀ n ∈ g.nodes, p n = true → n.isVirtual = false) :
    ((g.nodes.filter p).map (·.reference)).Nodup := by
  rw [List.Nodup, List.pairwise_map, List.pairwise_filter, List.pairwise_iff_getElem]
  intro i j hi hj hij hfirst hsecond hsame
  have hpackage : ∀ k (hk : k < g.nodes.length), p g.nodes[k] = true →
      g.IsPackage k g.nodes[k].reference := fun k hk hholds =>
    ⟨g.nodes[k], List.getElem?_eq_getElem hk, hp _ (List.getElem_mem hk) hholds, rfl⟩
  have heq := h i j _ _ (hpackage i hi hfirst) (hpackage j hj hsecond) (congrArg _ hsame)
  omega

end Graph

namespace Resolution

variable {r : Resolution} {stores : Stores} {handles : List BinaryHandle}

private theorem fetch_eq_ok_iff :
    r.fetch stores = .ok handles ↔
      ∃ fetched, r.graph.downloads.mapM stores.fetchNode = .ok fetched ∧
      (fetched.mergeSort fun a b => (compare a.key.reference b.key.reference).isLE) = handles := by
  rw [fetch, bind_eq_ok_iff]
  simp only [pure, Except.pure, Except.ok.injEq]

private theorem exists_of_fetch_error {e : StoreError} (h : r.fetch stores = .error e) :
    ∃ n ∈ r.graph.downloads, stores.fetchNode n = .error e := by
  refine exists_of_mapM_error ?_
  cases hfetched : r.graph.downloads.mapM stores.fetchNode with
  | error e' =>
    rw [fetch, hfetched] at h
    exact h
  | ok fetched =>
    rw [fetch, hfetched] at h
    cases h

/-- What is fetched from where it was located comes back as the located binaries, by reference. -/
theorem delivers_of_fetch (hnames : r.graph.NamesUnique) (hlocated : r.AllLocated stores)
    (h : r.fetch stores = .ok handles) : r.Delivers handles := by
  obtain ⟨fetched, hfetched, rfl⟩ := fetch_eq_ok_iff.mp h
  have hyields : ∀ n ∈ r.graph.downloads, ∀ handle, stores.fetchNode n = .ok handle →
      n.located? = some handle := by
    intro n hn handle hfetch
    obtain ⟨-, located, hsome, hserve⟩ := hlocated n hn
    rcases Stores.fetchNode_cases hsome hserve with hok | ⟨e, herror, -⟩
    · rw [hsome, Except.ok.inj (hok.symm.trans hfetch)]
    · rw [herror] at hfetch
      cases hfetch
  constructor
  · have hmap : fetched.map some = r.graph.downloads.map Node.located? :=
      map_eq_of_mapM_ok hfetched fun n hn handle hfetch => (hyields n hn handle hfetch).symm
    rw [← hmap]
    exact (List.mergeSort_perm fetched _).map some
  · have hreferences : fetched.map (·.key.reference) = r.graph.downloads.map (·.reference) :=
      map_eq_of_mapM_ok hfetched fun n hn handle hfetch =>
        Node.reference_of_located? (hyields n hn handle hfetch)
    have hdistinct := hnames.nodup_references fun n hn hdownload =>
      (hlocated n (List.mem_filter.mpr ⟨hn, hdownload⟩)).1
    rw [← Graph.downloads, ← hreferences, List.Nodup, List.pairwise_map] at hdistinct
    refine pairwise_mergeSort_lt (compareOn fun a : BinaryHandle => a.key.reference) ?_
    exact hdistinct.imp fun hne heq => hne (Std.LawfulEqOrd.eq_of_compare heq)

/-- A fetch that fails was refused something that is located. -/
theorem exists_refuse_of_fetch_error {e : StoreError} (hlocated : r.AllLocated stores)
    (h : r.fetch stores = .error e) :
    ∃ n ∈ r.graph.downloads, ∃ handle, n.located? = some handle ∧
      stores.Serve handle.key .download (some handle.store) ∧ stores.Refuse handle e := by
  obtain ⟨n, hn, herror⟩ := exists_of_fetch_error h
  obtain ⟨-, handle, hsome, hserve⟩ := hlocated n hn
  refine ⟨n, hn, handle, hsome, hserve, ?_⟩
  rcases Stores.fetchNode_cases hsome hserve with hok | ⟨e', herror', hrefuse⟩
  · rw [hok] at herror
    cases herror
  · rw [herror'] at herror
    cases herror
    exact hrefuse

private theorem fetchesLocated (hnames : r.graph.NamesUnique) (hlocated : r.AllLocated stores) :
    r.FetchesLocated stores where
  located := hlocated
  delivers _ := delivers_of_fetch hnames hlocated
  refused e h := by
    obtain ⟨n, hn, handle, hsome, -, hrefuse⟩ := exists_refuse_of_fetch_error hlocated h
    exact ⟨n, hn, handle, hsome, hrefuse⟩
  fails n hn handle e hsome hrefuse := by
    cases hfetch : r.fetch stores with
    | error e' => exact ⟨e', rfl⟩
    | ok handles =>
      obtain ⟨fetched, hfetched, -⟩ := fetch_eq_ok_iff.mp hfetch
      obtain ⟨i, hi⟩ := List.mem_iff_getElem?.mp hn
      obtain ⟨handle', hhandle', -⟩ := (getElem?_of_mapM_ok hfetched).2 i n hi
      rw [hrefuse.fetchNode_eq hsome] at hhandle'
      cases hhandle'
  succeeds hremotes := by
    cases hfetch : r.fetch stores with
    | ok handles => exact ⟨handles, rfl⟩
    | error e =>
      obtain ⟨n, -, handle, -, hserve, hrefuse⟩ := exists_refuse_of_fetch_error hlocated hfetch
      exact absurd hrefuse (hserve.not_refuse hremotes)

end Resolution

namespace Resolver

private theorem Stages.allLocated {resolver : Resolver} {request : ResolveRequest}
    (s : Stages resolver request) : Resolution.AllLocated ⟨s.final⟩ resolver.stores := by
  intro n hn
  obtain ⟨i, hi, hdownload⟩ := Graph.mem_downloads_iff.mp hn
  have hstatus : n.status = .download := by
    rw [Node.status, hdownload]
    rfl
  obtain ⟨recipe, id, hrecipe, hid, -, hserve⟩ :=
    s.usesValidBinaries.backed i n hi (BinaryStatus.hasBinary_iff.mpr (.inr hstatus))
  rw [hstatus] at hserve
  refine ⟨by simp [Node.isVirtual, hrecipe], ?_⟩
  generalize hremote : n.remote? = remote? at hserve
  cases hserve with
  | @download store hmem hhas =>
    refine ⟨⟨.of n.reference id, store.name⟩, ?_, .download hmem hhas⟩
    exact Node.located?_eq_some_iff.mpr ⟨id, store.name, hid, hremote, rfl⟩

/-- Whenever a resolution succeeds, fetching from the same stores delivers exactly what it located,
unless the first remote of a name does not serve what was located on another one of that name. -/
theorem fetchesLocated_of_resolve {resolver : Resolver} {request : ResolveRequest} {r : Resolution}
    (h : (resolver.resolve request).1 = .ok r) : r.FetchesLocated resolver.stores := by
  obtain ⟨s, hfinal⟩ := resolve_eq_ok_iff.mp h
  cases r
  cases hfinal
  exact Resolution.fetchesLocated s.namesUnique_final s.allLocated

theorem fetchesLocated_ofSharedLibrary :
    ∃ r handle, (ofSharedLibrary.resolve
        ⟨.package (.ofTexts "app" "1.0"), ∅, .everyMissing⟩).1 = .ok r ∧
      r.fetch ofSharedLibrary.stores = .ok [handle] ∧ handle.store = "mirror" ∧
      r.FetchesLocated ofSharedLibrary.stores := by
  have hview : (ofSharedLibrary.resolve
      ⟨.package (.ofTexts "app" "1.0"), ∅, .everyMissing⟩).1.toOption.map (fun r =>
        (r.fetch ofSharedLibrary.stores).toOption.map fun handles =>
          handles.map (·.store)) = some (some ["mirror"]) := by decide +kernel
  obtain ⟨r, h, hshown⟩ := exists_ok_of_map_toOption hview
  obtain ⟨handles, hfetch, hstores⟩ := exists_ok_of_map_toOption hshown
  obtain ⟨handle, rfl, hstore⟩ := List.map_eq_singleton_iff.mp hstores
  exact ⟨r, handle, h, hfetch, hstore, fetchesLocated_of_resolve h⟩

/-- A resolver with two remotes of one name, of which only the second has the binary of the only
package. -/
def ofTwoMirrors : Resolver where
  catalog := .ofIndex (RecipeIndex.empty.upsert ⟨.ofTexts "zlib" "1.3.0", [], ∅, [], .none⟩)
  stores := ⟨.empty "local", [.empty "mirror", .holding "mirror" [⟨.ofTexts "zlib" "1.3.0",
    "e804a3658b70b99fd306b75a741d47e6fa8dc5c7e774e715587b372cbe41933e"⟩]]⟩
  config := .default

/-- What is located behind a remote of the same name cannot be fetched. -/
theorem not_fetch_ofTwoMirrors :
    ∃ r, (ofTwoMirrors.resolve
        ⟨.package (.ofTexts "zlib" "1.3.0"), ∅, .never⟩).1 = .ok r ∧
      r.graph.downloads.length = 1 ∧
      ¬∃ handles, r.fetch ofTwoMirrors.stores = .ok handles := by
  have hview : (ofTwoMirrors.resolve
      ⟨.package (.ofTexts "zlib" "1.3.0"), ∅, .never⟩).1.toOption.map (fun r =>
        (r.graph.downloads.length, (r.fetch ofTwoMirrors.stores).toOption)) =
      some (1, none) := by decide +kernel
  obtain ⟨r, h, hshown⟩ := exists_ok_of_map_toOption hview
  obtain ⟨hlength, hfetch⟩ := Prod.mk.inj hshown
  refine ⟨r, h, hlength, ?_⟩
  rintro ⟨handles, hok⟩
  rw [hok] at hfetch
  cases hfetch

end Resolver

end Provision
