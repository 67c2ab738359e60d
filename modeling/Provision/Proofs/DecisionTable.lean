import Provision.Proofs.Decision

/-!
The decision about a single node as a table. What counts is whether the node is invalid, whether it
is to be built by force, which stores have its binary, what the search among its candidates selects,
and whether the policy builds what is missing. The hook that offers candidates is consulted only
where the search is reached.
-/

namespace Provision

def Location.status : Location → BinaryStatus
  | .cache => .cache
  | .remote _ => .download

def Location.remote? : Location → Option String
  | .cache => none
  | .remote name => some name

/-- A node whose package offers candidates in another way. -/
def Node.withCompatibility (hook? : Option (HookContext → Except HookError (List Candidate)))
    (n : Node) : Node :=
  { n with recipe? := n.recipe?.map fun recipe =>
      { recipe with hooks := { recipe.hooks with compatibility? := hook? } } }

namespace DecisionContext

/-- What the search among the candidates of a node selects, if they can be prepared. -/
def selection (k : DecisionContext) (g : Graph) (i : Nat) (n : Node) :
    Except HookCrash (Option (Fallback × Location)) :=
  (fun candidates => (k.stores.explore n candidates).selected?) <$> g.candidates k.mode i n

/-- The search is reached: the node is not built by force, and it is invalid or has no binary. -/
def Searches (k : DecisionContext) (n : Node) (key : BinaryKey) : Prop :=
  k.policy.isForced n.reference = false ∧ (n.invalid?.isSome = true ∨ ¬k.stores.Holds key)

/-- The table: the status, the candidate and the remote that are decided on. -/
inductive Row (k : DecisionContext) (g : Graph) (i : Nat) (n : Node) (key : BinaryKey) :
    BinaryStatus → Option Fallback → Option String → Prop
  | invalidForced (hinvalid : n.invalid?.isSome = true)
      (hforced : k.policy.isForced n.reference = true) : Row k g i n key .invalid none none
  | invalidRescued {fallback : Fallback} {location : Location} (hinvalid : n.invalid?.isSome = true)
      (hunforced : k.policy.isForced n.reference = false)
      (hselection : k.selection g i n = .ok (some (fallback, location))) :
      Row k g i n key location.status (some fallback) location.remote?
  | invalid (hinvalid : n.invalid?.isSome = true)
      (hunforced : k.policy.isForced n.reference = false)
      (hselection : k.selection g i n = .ok none) : Row k g i n key .invalid none none
  | cached (hvalid : n.invalid? = none) (hcache : k.stores.cache.Has key) :
      Row k g i n key .cache none none
  | forced (hvalid : n.invalid? = none) (hcache : ¬k.stores.cache.Has key)
      (hforced : k.policy.isForced n.reference = true) : Row k g i n key .build none none
  | downloaded {store : Store} (hvalid : n.invalid? = none) (hcache : ¬k.stores.cache.Has key)
      (hunforced : k.policy.isForced n.reference = false)
      (hremote : k.stores.firstRemote? key = some store) :
      Row k g i n key .download none (some store.name)
  | rescued {fallback : Fallback} {location : Location} (hvalid : n.invalid? = none)
      (habsent : ¬k.stores.Holds key) (hunforced : k.policy.isForced n.reference = false)
      (hselection : k.selection g i n = .ok (some (fallback, location))) :
      Row k g i n key location.status (some fallback) location.remote?
  | built (hvalid : n.invalid? = none) (habsent : ¬k.stores.Holds key)
      (hunforced : k.policy.isForced n.reference = false)
      (hselection : k.selection g i n = .ok none)
      (hbuilds : k.policy.buildsMissing n.reference = true) : Row k g i n key .build none none
  | missing (hvalid : n.invalid? = none) (habsent : ¬k.stores.Holds key)
      (hunforced : k.policy.isForced n.reference = false)
      (hselection : k.selection g i n = .ok none)
      (hleaves : k.policy.buildsMissing n.reference = false) : Row k g i n key .missing none none

variable {k : DecisionContext} {g : Graph} {i : Nat} {n : Node} {d : Decision} {id : PackageId}
  {crash : HookCrash}

section Searching

private theorem selection_eq_error_iff :
    k.selection g i n = .error crash ↔ g.candidates k.mode i n = .error crash := by
  unfold selection
  cases g.candidates k.mode i n <;> simp [Functor.map, Except.map]

private theorem rescue_of_error (h : k.selection g i n = .error crash) :
    k.rescue g i n d = .error crash := by
  rw [rescue, selection_eq_error_iff.mp h]
  rfl

private theorem rescue_of_some {fallback : Fallback} {location : Location}
    (h : k.selection g i n = .ok (some (fallback, location))) :
    ∃ errors, k.rescue g i n d =
      .ok ⟨location.status, some fallback, location.remote?, errors⟩ := by
  obtain ⟨candidates, hcandidates, hselected⟩ := map_eq_ok_iff.mp h
  refine ⟨d.storeErrors ++ (k.stores.explore n candidates).errors,
    rescue_eq_ok_iff.mpr ⟨candidates, hcandidates, ?_⟩⟩
  rw [Decision.explored, hselected]
  cases location <;> rfl

private theorem rescue_of_none (h : k.selection g i n = .ok none) :
    ∃ errors, k.rescue g i n d = .ok { d with storeErrors := errors } := by
  obtain ⟨candidates, hcandidates, hselected⟩ := map_eq_ok_iff.mp h
  refine ⟨d.storeErrors ++ (k.stores.explore n candidates).errors,
    rescue_eq_ok_iff.mpr ⟨candidates, hcandidates, ?_⟩⟩
  rw [Decision.explored, hselected]

end Searching

section Regions

theorem decide_of_invalid (hid : n.id? = some id) (hinvalid : n.invalid?.isSome = true) :
    k.decide g i n =
      if k.policy.isForced n.reference then .ok (.ofStatus .invalid)
      else k.rescue g i n (.ofStatus .invalid) := by
  rw [decide, hid]
  exact if_pos hinvalid

theorem decide_of_valid (hid : n.id? = some id) (hvalid : n.invalid? = none) :
    k.decide g i n = k.decideValid g i n id := by
  rw [decide, hid]
  exact if_neg (by simp [hvalid])

theorem decideValid_of_cache (hcache : k.stores.cache.Has (.of n.reference id)) :
    k.decideValid g i n id =
      .ok ⟨.cache, none, none, (k.stores.locate (.of n.reference id)).errors⟩ := by
  have hlocation : (k.stores.locate (.of n.reference id)).location? = some .cache := by
    rw [Stores.location?_locate, if_pos hcache]
  simp only [decideValid, hlocation]
  rfl

theorem decideValid_of_forced (hcache : ¬k.stores.cache.Has (.of n.reference id))
    (hforced : k.policy.isForced n.reference = true) :
    k.decideValid g i n id =
      .ok ⟨.build, none, none, (k.stores.locate (.of n.reference id)).errors⟩ := by
  have hlocation : (k.stores.locate (.of n.reference id)).location? ≠ some .cache := by
    rw [Ne, Stores.locate_eq_cache_iff]
    exact hcache
  simp only [decideValid, hforced]
  rfl

theorem decideValid_of_remote {store : Store} (hcache : ¬k.stores.cache.Has (.of n.reference id))
    (hunforced : k.policy.isForced n.reference = false)
    (hremote : k.stores.firstRemote? (.of n.reference id) = some store) :
    k.decideValid g i n id =
      .ok ⟨.download, none, some store.name,
        (k.stores.locate (.of n.reference id)).errors⟩ := by
  have hlocation : (k.stores.locate (.of n.reference id)).location? =
      some (.remote store.name) := by
    rw [Stores.location?_locate, if_neg hcache, hremote]
    rfl
  simp only [decideValid, hlocation, hunforced]
  rfl

theorem decideValid_of_absent (habsent : ¬k.stores.Holds (.of n.reference id))
    (hunforced : k.policy.isForced n.reference = false) :
    k.decideValid g i n id = do
      let d ← k.rescue g i n
        ⟨.missing, none, none, (k.stores.locate (.of n.reference id)).errors⟩
      if d.fallback?.isNone && k.policy.buildsMissing n.reference then
        return { d with status := .build }
      else return d := by
  have hlocation : (k.stores.locate (.of n.reference id)).location? = none := by
    rwa [← Stores.isSome_locate_iff, Bool.not_eq_true, Option.isSome_eq_false_iff,
      Option.isNone_iff_eq_none] at habsent
  simp only [decideValid, hlocation, hunforced]
  rfl

/-- What is decided where the search is reached and selects nothing. -/
theorem decideValid_of_none (habsent : ¬k.stores.Holds (.of n.reference id))
    (hunforced : k.policy.isForced n.reference = false) (h : k.selection g i n = .ok none) :
    ∃ errors, k.decideValid g i n id = .ok
      ⟨if k.policy.buildsMissing n.reference then .build else .missing, none, none, errors⟩ := by
  obtain ⟨errors, hrescue⟩ := rescue_of_none (d := ⟨.missing, none, none,
    (k.stores.locate (.of n.reference id)).errors⟩) h
  refine ⟨errors, ?_⟩
  rw [decideValid_of_absent habsent hunforced, hrescue]
  cases k.policy.buildsMissing n.reference <;> rfl

private theorem decideValid_of_some {fallback : Fallback} {location : Location}
    (habsent : ¬k.stores.Holds (.of n.reference id))
    (hunforced : k.policy.isForced n.reference = false)
    (h : k.selection g i n = .ok (some (fallback, location))) :
    ∃ errors, k.decideValid g i n id =
      .ok ⟨location.status, some fallback, location.remote?, errors⟩ := by
  obtain ⟨errors, hrescue⟩ := rescue_of_some (d := ⟨.missing, none, none,
    (k.stores.locate (.of n.reference id)).errors⟩) h
  refine ⟨errors, ?_⟩
  rw [decideValid_of_absent habsent hunforced, hrescue]
  rfl

end Regions

section Table

/-- Every row of the table is decided. -/
theorem Row.exists_decide {status : BinaryStatus} {fallback? : Option Fallback}
    {remote? : Option String} (hid : n.id? = some id)
    (h : k.Row g i n (.of n.reference id) status fallback? remote?) :
    ∃ errors, k.decide g i n = .ok ⟨status, fallback?, remote?, errors⟩ := by
  cases h with
  | invalidForced hinvalid hforced =>
    rw [decide_of_invalid hid hinvalid, if_pos hforced]
    exact ⟨_, rfl⟩
  | invalidRescued hinvalid hunforced hselection =>
    rw [decide_of_invalid hid hinvalid, if_neg (by simp [hunforced])]
    exact rescue_of_some hselection
  | invalid hinvalid hunforced hselection =>
    rw [decide_of_invalid hid hinvalid, if_neg (by simp [hunforced])]
    exact rescue_of_none hselection
  | cached hvalid hcache =>
    rw [decide_of_valid hid hvalid, decideValid_of_cache hcache]
    exact ⟨_, rfl⟩
  | forced hvalid hcache hforced =>
    rw [decide_of_valid hid hvalid, decideValid_of_forced hcache hforced]
    exact ⟨_, rfl⟩
  | downloaded hvalid hcache hunforced hremote =>
    rw [decide_of_valid hid hvalid, decideValid_of_remote hcache hunforced hremote]
    exact ⟨_, rfl⟩
  | rescued hvalid habsent hunforced hselection =>
    rw [decide_of_valid hid hvalid]
    exact decideValid_of_some habsent hunforced hselection
  | built hvalid habsent hunforced hselection hbuilds =>
    obtain ⟨errors, hdecide⟩ := decideValid_of_none habsent hunforced hselection
    rw [hbuilds] at hdecide
    rw [decide_of_valid hid hvalid]
    exact ⟨errors, hdecide⟩
  | missing hvalid habsent hunforced hselection hleaves =>
    obtain ⟨errors, hdecide⟩ := decideValid_of_none habsent hunforced hselection
    rw [hleaves] at hdecide
    rw [decide_of_valid hid hvalid]
    exact ⟨errors, hdecide⟩

/-- A crash in the search is passed on where the search is reached. -/
theorem decide_of_crash (hid : n.id? = some id) (hsearches : k.Searches n (.of n.reference id))
    (h : g.candidates k.mode i n = .error crash) : k.decide g i n = .error crash := by
  have hselection := selection_eq_error_iff.mpr h
  obtain ⟨hunforced, hreason⟩ := hsearches
  by_cases hinvalid : n.invalid?.isSome = true
  · rw [decide_of_invalid hid hinvalid, if_neg (by simp [hunforced])]
    exact rescue_of_error hselection
  · have hvalid : n.invalid? = none := by simpa using hinvalid
    rw [decide_of_valid hid hvalid, decideValid_of_absent (hreason.resolve_left hinvalid) hunforced,
      rescue_of_error hselection]
    rfl

/-- The rows cover everything but crashes in the search. -/
theorem exists_row_or_crash (k : DecisionContext) (g : Graph) (i : Nat) (n : Node)
    (key : BinaryKey) :
    (∃ status fallback? remote?, k.Row g i n key status fallback? remote?) ∨
      ∃ crash, k.Searches n key ∧ g.candidates k.mode i n = .error crash := by
  have hvalid_or : n.invalid?.isSome = true ∨ n.invalid? = none := by
    cases n.invalid? <;> simp
  cases hforced : k.policy.isForced n.reference with
  | true =>
    rcases hvalid_or with hinvalid | hvalid
    · exact .inl ⟨_, _, _, .invalidForced hinvalid hforced⟩
    · by_cases hcache : k.stores.cache.Has key
      · exact .inl ⟨_, _, _, .cached hvalid hcache⟩
      · exact .inl ⟨_, _, _, .forced hvalid hcache hforced⟩
  | false =>
    cases hselection : k.selection g i n with
    | error crash =>
      have hcandidates := selection_eq_error_iff.mp hselection
      rcases hvalid_or with hinvalid | hvalid
      · exact .inr ⟨crash, ⟨hforced, .inl hinvalid⟩, hcandidates⟩
      · rcases k.stores.holds_cases key with hcache | ⟨hcache, store, hremote⟩ | habsent
        · exact .inl ⟨_, _, _, .cached hvalid hcache⟩
        · exact .inl ⟨_, _, _, .downloaded hvalid hcache hforced hremote⟩
        · exact .inr ⟨crash, ⟨hforced, .inr habsent⟩, hcandidates⟩
    | ok selected? =>
      refine .inl ?_
      rcases hvalid_or with hinvalid | hvalid
      · cases selected? with
        | none => exact ⟨_, _, _, .invalid hinvalid hforced hselection⟩
        | some selected => exact ⟨_, _, _, .invalidRescued hinvalid hforced hselection⟩
      · rcases k.stores.holds_cases key with hcache | ⟨hcache, store, hremote⟩ | habsent
        · exact ⟨_, _, _, .cached hvalid hcache⟩
        · exact ⟨_, _, _, .downloaded hvalid hcache hforced hremote⟩
        · cases selected? with
          | some selected => exact ⟨_, _, _, .rescued hvalid habsent hforced hselection⟩
          | none =>
            cases hbuilds : k.policy.buildsMissing n.reference with
            | true => exact ⟨_, _, _, .built hvalid habsent hforced hselection hbuilds⟩
            | false => exact ⟨_, _, _, .missing hvalid habsent hforced hselection hbuilds⟩

/-- Where the search is not reached, neither the graph nor the hook that offers candidates has a
part in the decision. -/
theorem decide_withCompatibility {g' : Graph} {j : Nat}
    {hook? : Option (HookContext → Except HookError (List Candidate))} (hid : n.id? = some id)
    (h : k.policy.isForced n.reference = true ∨
      n.invalid? = none ∧ k.stores.Holds (.of n.reference id)) :
    k.decide g' j (n.withCompatibility hook?) = k.decide g i n := by
  by_cases hinvalid : n.invalid?.isSome = true
  · have hforced : k.policy.isForced n.reference = true :=
      h.resolve_right fun ⟨hvalid, _⟩ => by simp [hvalid] at hinvalid
    rw [decide_of_invalid hid hinvalid, if_pos hforced]
    exact (decide_of_invalid (n := n.withCompatibility hook?) hid hinvalid).trans (if_pos hforced)
  · have hvalid : n.invalid? = none := by simpa using hinvalid
    rw [decide_of_valid hid hvalid, decide_of_valid (n := n.withCompatibility hook?) hid hvalid]
    rcases k.stores.holds_cases (.of n.reference id) with
      hcache | ⟨hcache, store, hremote⟩ | habsent
    · rw [decideValid_of_cache hcache]
      exact decideValid_of_cache hcache
    · cases hforced : k.policy.isForced n.reference with
      | true =>
        rw [decideValid_of_forced hcache hforced]
        exact decideValid_of_forced hcache hforced
      | false =>
        rw [decideValid_of_remote hcache hforced hremote]
        exact decideValid_of_remote hcache hforced hremote
    · have hforced := h.resolve_right fun ⟨_, hholds⟩ => habsent hholds
      have hcache : ¬k.stores.cache.Has (.of n.reference id) := fun hhas => habsent (.inl hhas)
      rw [decideValid_of_forced hcache hforced]
      exact decideValid_of_forced hcache hforced

/-- The decision about a node is that of the table; it fails just if the search is reached and
crashes; and where the search is not reached, every hook leads to the same decision. -/
structure FollowsTable (k : DecisionContext) (g : Graph) (i : Nat) (n : Node) (key : BinaryKey) :
    Prop where
  ok_iff : ∀ status fallback? remote?,
    (∃ errors, k.decide g i n = .ok ⟨status, fallback?, remote?, errors⟩) ↔
      k.Row g i n key status fallback? remote?
  error_iff : ∀ crash, k.decide g i n = .error crash ↔
    k.Searches n key ∧ g.candidates k.mode i n = .error crash
  withCompatibility : k.policy.isForced n.reference = true ∨
    n.invalid? = none ∧ k.stores.Holds key →
      ∀ g' j hook?, k.decide g' j (n.withCompatibility hook?) = k.decide g i n

/-- Every decision about a node with an identity is read off the table, whatever the stores answer
and whatever its hooks do. -/
theorem followsTable (hid : n.id? = some id) : k.FollowsTable g i n (.of n.reference id) := by
  have hcover := exists_row_or_crash k g i n (.of n.reference id)
  refine
    { ok_iff := fun status fallback? remote? =>
        ⟨fun ⟨errors, h⟩ => ?_, fun hrow => hrow.exists_decide hid⟩
      error_iff := fun crash =>
        ⟨fun h => ?_, fun ⟨hsearches, hcrash⟩ => decide_of_crash hid hsearches hcrash⟩
      withCompatibility := fun h g' j hook? => decide_withCompatibility hid h }
  · rcases hcover with ⟨status', fallback', remote', hrow⟩ | ⟨crash, hsearches, hcrash⟩
    · obtain ⟨errors', h'⟩ := hrow.exists_decide hid
      rw [h] at h'
      cases h'
      exact hrow
    · rw [decide_of_crash hid hsearches hcrash] at h
      cases h
  · rcases hcover with ⟨status', fallback', remote', hrow⟩ | ⟨crash', hsearches, hcrash⟩
    · obtain ⟨errors', h'⟩ := hrow.exists_decide hid
      rw [h] at h'
      cases h'
    · rw [decide_of_crash hid hsearches hcrash] at h
      cases h
      exact ⟨hsearches, hcrash⟩

/-- A package whose hook crashes when it is asked for candidates. -/
def ofCrashingOffer : Node :=
  let recipe : Recipe :=
    { reference := .ofTexts "zlib" "1.3.0"
      settings := []
      options := ∅
      requires := []
      hooks := { Hooks.none with compatibility? := some fun _ => .error (.crash "broken") } }
  { Node.new (.ofTexts "zlib" "1.3.0") (some recipe) with id? := some ⟨"0a", []⟩ }

/-- With its binary on a remote the package is downloaded, and without it its hook crashes. -/
theorem followsTable_ofCrashingOffer :
    let key : BinaryKey := ⟨.ofTexts "zlib" "1.3.0", "0a"⟩
    let central : MemoryStore := ⟨"central", [key], true⟩
    let mirror : MemoryStore := ⟨"mirror", [key], false⟩
    let context (remotes : List Store) : DecisionContext :=
      ⟨⟨.empty "local", remotes⟩, .never, .semver⟩
    (context [central.toStore, mirror.toStore]).decide (.ofRoot ofCrashingOffer) 0 ofCrashingOffer =
        .ok ⟨.download, none, some "mirror", [central.offlineError]⟩ ∧
      (context [central.toStore]).decide (.ofRoot ofCrashingOffer) 0 ofCrashingOffer =
        .error ⟨.ofTexts "zlib" "1.3.0", .compatibility, "broken"⟩ ∧
      ∀ remotes,
        (context remotes).FollowsTable (.ofRoot ofCrashingOffer) 0 ofCrashingOffer key := by
  intro key central mirror context
  have hid : ofCrashingOffer.id? = some ⟨"0a", []⟩ := rfl
  exact ⟨by decide +kernel, by decide +kernel, fun remotes => followsTable hid⟩

end Table

end DecisionContext

end Provision
