import Provision.Proofs.DecisionTable
import Provision.Proofs.Resolution.Events

/-!
The errors that a node records. Every look-up asks the stores in order until one has the binary, and
brings the errors of the stores before it that do not answer. A node records these for each key
that was looked up for it, once and in order: for the requested identity, and for the candidates up
to the one that is selected.
-/

namespace Provision

/-- The error with which a store fails on a query, if it does. -/
def Store.outage? (store : Store) (key : BinaryKey) : Option StoreError :=
  failure? (store.exists? key)

/-- A store in memory fails on every query while it is offline, and on none while it is online. -/
theorem MemoryStore.outage?_toStore (store : MemoryStore) (key : BinaryKey) :
    store.toStore.outage? key = if store.isOffline then some store.offlineError else none := by
  unfold Store.outage? toStore
  cases store.isOffline <;> rfl

namespace Stores

variable {stores : Stores} {key : BinaryKey} {r : Reference} {requested : PackageId} {n n' : Node}
  {candidates tried : List PreparedCandidate}

def inOrder (stores : Stores) : List Store :=
  stores.cache :: stores.remotes

/-- The errors of a look-up: one for each store that does not answer, among those before the first
that has the binary. -/
def outages (stores : Stores) (key : BinaryKey) : List StoreError :=
  (stores.inOrder.takeWhile fun store => ¬store.Has key).filterMap (·.outage? key)

private theorem errors_search (ranked : List (Location × Store)) :
    (search key ranked).errors =
      ((ranked.map (·.2)).takeWhile fun store => ¬store.Has key).filterMap (·.outage? key) := by
  induction ranked with
  | nil => rfl
  | cons first rest ih =>
    obtain ⟨location, store⟩ := first
    rw [search, List.map_cons, List.takeWhile_cons]
    cases hexists : store.exists? key with
    | error e => simp [Store.Has, Store.outage?, failure?, hexists, ih]
    | ok has => cases has <;> simp [Store.Has, Store.outage?, failure?, hexists, ih]

private theorem errors_locate (stores : Stores) (key : BinaryKey) :
    (stores.locate key).errors = stores.outages key := by
  rw [locate, errors_search, outages, inOrder, ranked, List.map_cons, List.map_map]
  congr
  exact List.map_id _

/-- Which candidates of a node are looked up: those up to the selected one, or all. -/
inductive Tries (stores : Stores) (n : Node) (candidates : List PreparedCandidate) :
    List PreparedCandidate → Prop
  | all (hnone : (stores.explore n candidates).selected? = none) :
      Tries stores n candidates candidates
  | upTo {before after : List PreparedCandidate} {p : PreparedCandidate} {fallback : Fallback}
      {location : Location} (hsplit : candidates = before ++ p :: after)
      (hselected : (stores.explore n candidates).selected? = some (fallback, location))
      (hindex : p.index = fallback.candidateIndex) (hid : p.id = fallback.selected) :
      Tries stores n candidates (before ++ [p])

/-- Candidates are looked up one by one, until one has a binary. -/
theorem errors_firstAvailable (stores : Stores) (r : Reference) (requested : PackageId)
    (candidates : List PreparedCandidate) :
    ((stores.firstAvailable r requested candidates).selected? = none ∧
      (stores.firstAvailable r requested candidates).errors =
        candidates.flatMap fun p => stores.outages (.of r p.id)) ∨
    ∃ before p after location, candidates = before ++ p :: after ∧
      (stores.firstAvailable r requested candidates).selected? =
        some (⟨requested, p.id, p.index⟩, location) ∧
      (stores.firstAvailable r requested candidates).errors =
        (before ++ [p]).flatMap fun p => stores.outages (.of r p.id) := by
  induction candidates with
  | nil => exact .inl ⟨rfl, rfl⟩
  | cons first rest ih =>
    rw [firstAvailable, errors_locate]
    cases (stores.locate (.of r first.id)).location? with
    | some location =>
      exact .inr ⟨[], first, rest, location, rfl, rfl, (List.flatMap_singleton ..).symm⟩
    | none =>
      rcases ih with ⟨hnone, herrors⟩ | ⟨before, p, after, location, hsplit, hselected, herrors⟩
      · refine .inl ⟨hnone, ?_⟩
        rw [List.flatMap_cons, ← herrors]
      · refine .inr ⟨first :: before, p, after, location, ?_, hselected, ?_⟩
        · rw [hsplit, List.cons_append]
        · rw [List.cons_append, List.flatMap_cons, ← herrors]

/-- The errors of a search are those of the look-ups of the candidates that it tries. -/
theorem exists_tries (stores : Stores) (candidates : List PreparedCandidate)
    (hid : n.id? = some requested) : ∃ tried, stores.Tries n candidates tried ∧
      (stores.explore n candidates).errors =
        tried.flatMap fun p => stores.outages (.of n.reference p.id) := by
  have hexplore : stores.explore n candidates =
      stores.firstAvailable n.reference requested candidates := by
    rw [explore, hid]
  rcases stores.errors_firstAvailable n.reference requested candidates with
    ⟨hnone, herrors⟩ | ⟨before, p, after, location, hsplit, hselected, herrors⟩
  · rw [← hexplore] at hnone herrors
    exact ⟨candidates, .all hnone, herrors⟩
  · rw [← hexplore] at hselected herrors
    exact ⟨before ++ [p], .upTo hsplit hselected rfl rfl, herrors⟩

end Stores

namespace DecisionContext

variable {k : DecisionContext} {g : Graph} {i : Nat} {n : Node} {d d' : Decision} {id : PackageId}

/-- The keys that are looked up for a package: the requested one, unless the package rejects it; and
then, if candidates are searched, those of the candidates that are tried. They are searched unless
the package is to be built by force, if it rejects what is requested or no store has it. -/
inductive LooksUp (k : DecisionContext) (g : Graph) (i : Nat) (n : Node) (id : PackageId)
    (rejected : Prop) : List BinaryKey → Prop
  | nothing (hrejected : rejected) (hforced : k.policy.isForced n.reference = true) :
      LooksUp k g i n id rejected []
  | candidates {candidates tried : List PreparedCandidate} (hrejected : rejected)
      (hunforced : k.policy.isForced n.reference = false)
      (hcandidates : g.candidates k.mode i n = .ok candidates)
      (htries : k.stores.Tries n candidates tried) :
      LooksUp k g i n id rejected (tried.map fun p => .of n.reference p.id)
  | requested (haccepted : ¬rejected)
      (hsettled : k.policy.isForced n.reference = true ∨ k.stores.Holds (.of n.reference id)) :
      LooksUp k g i n id rejected [.of n.reference id]
  | both {candidates tried : List PreparedCandidate} (haccepted : ¬rejected)
      (hunforced : k.policy.isForced n.reference = false)
      (habsent : ¬k.stores.Holds (.of n.reference id))
      (hcandidates : g.candidates k.mode i n = .ok candidates)
      (htries : k.stores.Tries n candidates tried) :
      LooksUp k g i n id rejected
        (.of n.reference id :: tried.map fun p => .of n.reference p.id)

/-- A search adds the errors of the candidates that it tries. -/
theorem exists_tries_of_rescue (hid : n.id? = some id) (h : k.rescue g i n d = .ok d') :
    ∃ candidates tried, g.candidates k.mode i n = .ok candidates ∧
      k.stores.Tries n candidates tried ∧
      d'.storeErrors = d.storeErrors ++
        (tried.map fun p => BinaryKey.of n.reference p.id).flatMap k.stores.outages := by
  obtain ⟨candidates, hcandidates, rfl⟩ := rescue_eq_ok_iff.mp h
  obtain ⟨tried, htries, herrors⟩ := k.stores.exists_tries candidates hid
  refine ⟨candidates, tried, hcandidates, htries, ?_⟩
  rw [List.flatMap_map, ← herrors, Decision.explored]
  cases (k.stores.explore n candidates).selected? with
  | none => rfl
  | some selected =>
    obtain ⟨fallback, location⟩ := selected
    cases location <;> rfl

/-- The errors of a decision are those of the keys that are looked up for it. -/
theorem exists_looksUp_of_decide (hid : n.id? = some id) (h : k.decide g i n = .ok d) :
    ∃ keys, k.LooksUp g i n id (n.invalid?.isSome = true) keys ∧
      d.storeErrors = keys.flatMap k.stores.outages := by
  by_cases hinvalid : n.invalid?.isSome = true
  · rw [decide_of_invalid hid hinvalid] at h
    split at h
    · rename_i hforced
      cases h
      exact ⟨[], .nothing hinvalid hforced, rfl⟩
    · rename_i hunforced
      obtain ⟨candidates, tried, hcandidates, htries, herrors⟩ := exists_tries_of_rescue hid h
      exact ⟨_, .candidates hinvalid (Bool.not_eq_true _ ▸ hunforced) hcandidates htries, herrors⟩
  · have hvalid : n.invalid? = none := by simpa using hinvalid
    rw [decide_of_valid hid hvalid] at h
    have hrequested : (k.stores.locate (.of n.reference id)).errors =
        [BinaryKey.of n.reference id].flatMap k.stores.outages := by
      rw [Stores.errors_locate, List.flatMap_singleton]
    rcases k.stores.holds_cases (.of n.reference id) with
      hcache | ⟨hcache, store, hremote⟩ | habsent
    · rw [decideValid_of_cache hcache] at h
      cases h
      exact ⟨_, .requested hinvalid (.inr (.inl hcache)), hrequested⟩
    · have hholds : k.stores.Holds (.of n.reference id) :=
        .inr (Stores.isSome_firstRemote?_iff.mp (Option.isSome_of_eq_some hremote))
      cases hforced : k.policy.isForced n.reference with
      | true =>
        rw [decideValid_of_forced hcache hforced] at h
        cases h
        exact ⟨_, .requested hinvalid (.inl hforced), hrequested⟩
      | false =>
        rw [decideValid_of_remote hcache hforced hremote] at h
        cases h
        exact ⟨_, .requested hinvalid (.inr hholds), hrequested⟩
    · cases hforced : k.policy.isForced n.reference with
      | true =>
        rw [decideValid_of_forced (fun hhas => habsent (.inl hhas)) hforced] at h
        cases h
        exact ⟨_, .requested hinvalid (.inl hforced), hrequested⟩
      | false =>
        rw [decideValid_of_absent habsent hforced, bind_eq_ok_iff] at h
        obtain ⟨d', hrescue, h⟩ := h
        obtain ⟨candidates, tried, hcandidates, htries, herrors⟩ :=
          exists_tries_of_rescue hid hrescue
        have hsame : d.storeErrors = d'.storeErrors := by
          split at h <;> cases h <;> rfl
        refine ⟨_, .both hinvalid hforced habsent hcandidates htries, ?_⟩
        rw [hsame, herrors, List.flatMap_cons, Stores.errors_locate]

/-- A node that has the same identity, and whose candidates are the same, is looked up alike. -/
theorem LooksUp.congr {g' : Graph} {n' : Node} {rejected rejected' : Prop} {keys : List BinaryKey}
    (h : k.LooksUp g i n id rejected keys) (hsame : n.SameIdentity n')
    (hcandidates : g'.candidates k.mode i n' = g.candidates k.mode i n)
    (hrejected : rejected' ↔ rejected) : k.LooksUp g' i n' id rejected' keys := by
  have htries {candidates tried : List PreparedCandidate}
      (h : k.stores.Tries n candidates tried) : k.stores.Tries n' candidates tried := by
    have hexplore : k.stores.explore n' candidates = k.stores.explore n candidates := by
      rw [Stores.explore, Stores.explore, hsame.id_eq, hsame.reference_eq]
    cases h with
    | all hnone => exact .all (hexplore ▸ hnone)
    | upTo hsplit hselected hindex hid => exact .upTo hsplit (hexplore ▸ hselected) hindex hid
  cases h with
  | nothing hrejects hforced =>
    exact .nothing (hrejected.mpr hrejects) (hsame.reference_eq ▸ hforced)
  | candidates hrejects hunforced hprepared hsearch =>
    rw [← hsame.reference_eq] at hunforced ⊢
    exact .candidates (hrejected.mpr hrejects) hunforced (hcandidates.trans hprepared)
      (htries hsearch)
  | requested haccepted hsettled =>
    rw [← hsame.reference_eq] at hsettled ⊢
    exact .requested (mt hrejected.mp haccepted) hsettled
  | both haccepted hunforced habsent hprepared hsearch =>
    rw [← hsame.reference_eq] at hunforced habsent ⊢
    exact .both (mt hrejected.mp haccepted) hunforced habsent (hcandidates.trans hprepared)
      (htries hsearch)

end DecisionContext

/-- The errors that the packages of a resolution record: those of the keys that were looked up for
each, in order. -/
def Resolution.RecordsOutages (r : Resolution) (k : DecisionContext) : Prop :=
  ∀ (i : Nat) (n : Node), r.graph.nodes[i]? = some n → n.isVirtual = false →
    ∃ id keys, n.id? = some id ∧
      k.LooksUp r.graph i n id (∃ message, r.graph.Rejects i message) keys ∧
      n.storeErrors = keys.flatMap k.stores.outages

namespace Resolver.Stages.History

variable {resolver : Resolver} {request : ResolveRequest} {s : Stages resolver request} {i : Nat}
  (h : s.History i)

/-- The candidates of a node are the same in the final graph as when the node was decided. -/
theorem candidates_final (mode : IdentityMode) :
    s.final.candidates mode i h.final = s.identified.candidates mode i h.identified := by
  rw [Graph.candidates, Graph.candidates, h.hookContext_final, s.contributions_final,
    h.sameIdentity.recipe_eq, h.sameIdentity.reference_eq, h.sameIdentity.id_eq]

private theorem exists_rejects_iff :
    (∃ message, s.final.Rejects i message) ↔ h.identified.invalid?.isSome = true := by
  simp only [h.rejects_iff]
  constructor
  · rintro ⟨message, hinvalid⟩
    rw [hinvalid]
    rfl
  · intro hinvalid
    rcases h.invalid?_identified with hnone | hown
    · rw [hnone] at hinvalid
      cases hinvalid
    · exact hown

end Resolver.Stages.History

/-- In every resolution that succeeds, each package records the errors of the look-ups for it. -/
theorem Resolver.recordsOutages_of_resolve {resolver : Resolver} {request : ResolveRequest}
    {r : Resolution} (h : (resolver.resolve request).1 = .ok r) :
    r.RecordsOutages ⟨resolver.stores, request.policy, resolver.config.mode⟩ := by
  obtain ⟨s, hfinal⟩ := resolve_eq_ok_iff.mp h
  intro i n hn hpackage
  rw [← hfinal] at hn ⊢
  obtain ⟨hi, rfl⟩ := s.history_of_final hn
  obtain ⟨recipe, hrecipe⟩ : ∃ recipe, hi.final.recipe? = some recipe := by
    rw [← Option.isSome_iff_exists]
    simpa [Node.isVirtual] using hpackage
  obtain ⟨-, d, -, -, hid, hd, hdecide⟩ := hi.of_package hrecipe
  obtain ⟨id, hid⟩ := Option.isSome_iff_exists.mp hid
  obtain ⟨keys, hlooksUp, herrors⟩ := DecisionContext.exists_looksUp_of_decide hid hdecide
  refine ⟨id, keys, hi.sameIdentity.id_eq.trans hid, ?_, ?_⟩
  · exact hlooksUp.congr hi.sameIdentity (hi.candidates_final _) hi.exists_rejects_iff
  · rw [hi.storeErrors_final, hd]
    exact herrors

/-- A resolver for a package that offers itself in three other modes, with a remote that does not
answer before one that has the second of them. -/
def Resolver.ofSilentCentral : Resolver where
  catalog := .ofIndex <| RecipeIndex.empty.upsert
    ⟨.ofTexts "pkg" "0.1", ["build_type"], ∅, [], { Hooks.none with
      compatibility? := some fun _ => .ok <|
        ["Release", "MinSizeRel", "RelWithDebInfo"].map fun mode => ⟨[("build_type", mode)], []⟩ }⟩
  stores :=
    let central := (MemoryStore.named "central").setOffline true
    ⟨.empty "local", [central.toStore, .holding "mirror" [.of (.ofTexts "pkg" "0.1")
      (.compute (Configuration.set ∅ "build_type" "MinSizeRel"))]]⟩
  config := .default

/-- The remote is asked for the requested binary and for the first two candidates. -/
theorem Resolver.recordsOutages_ofSilentCentral :
    let request : ResolveRequest :=
      ⟨.package (.ofTexts "pkg" "0.1"), Profile.empty.setting "build_type" "Debug", .never⟩
    ∃ r n, (ofSilentCentral.resolve request).1 = .ok r ∧ r.graph.nodes[0]? = some n ∧
      n.status? = some .download ∧
      n.storeErrors = List.replicate 3 (.unavailable "central" "store is offline") ∧
      r.RecordsOutages ⟨ofSilentCentral.stores, request.policy, ofSilentCentral.config.mode⟩ := by
  intro request
  have hview : (ofSilentCentral.resolve request).1.toOption.map (fun r =>
      r.graph.nodes[0]?.map fun n => (n.status?, n.storeErrors)) =
      some (some (some .download,
        List.replicate 3 (.unavailable "central" "store is offline"))) := by decide +kernel
  obtain ⟨r, h, hshown⟩ := exists_ok_of_map_toOption hview
  obtain ⟨n, hn, hnode⟩ := Option.map_eq_some_iff.mp hshown
  obtain ⟨hstatus, herrors⟩ := Prod.mk.inj hnode
  exact ⟨r, n, h, hn, hstatus, herrors, recordsOutages_of_resolve h⟩

end Provision
