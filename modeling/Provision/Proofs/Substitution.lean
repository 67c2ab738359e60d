import Provision.Proofs.Compatibility
import Provision.Proofs.Profile

/-!
A candidate stands for a configuration that could have been requested: the one that the same profile
requests with the values of the candidate on top. Its values go over settings that have been
filtered and over options that have their defaults, but that comes to the same as to filter and to
fill in last, so that a candidate has the identity that a request for it would have.
-/

namespace Provision

/-- The options of a candidate as assignments for the root. -/
def Candidate.assignments (candidate : Candidate) : List OptionAssignment :=
  candidate.options.map fun e => ⟨none, e.1, e.2⟩

/-- A profile with the values of a candidate on top: its settings, then its options for the root. -/
def Profile.overlaid (p : Profile) (candidate : Candidate) : Profile :=
  candidate.options.foldl (fun p (name, value) => p.option name value)
    (candidate.settings.foldl (fun p (key, value) => p.setting key value) p)

namespace Profile

variable {p : Profile} {recipe : Recipe} {candidate : Candidate} {requested m : Configuration}

private theorem foldl_setting (settings : List (String × String)) (p : Profile) :
    settings.foldl (fun p (key, value) => p.setting key value) p =
      ⟨settings.foldl (fun m (key, value) => m.insert key value) p.settings, p.options⟩ := by
  induction settings generalizing p with
  | nil => rfl
  | cons first rest ih => exact ih _

private theorem foldl_option (options : List (String × String)) (p : Profile) :
    options.foldl (fun p (name, value) => p.option name value) p =
      ⟨p.settings, p.options ++ options.map fun e => ⟨none, e.1, e.2⟩⟩ := by
  induction options generalizing p with
  | nil => simp
  | cons first rest ih =>
    refine (ih _).trans ?_
    simp [option]

private theorem overlaid_eq (p : Profile) (candidate : Candidate) : p.overlaid candidate =
    ⟨candidate.settings.foldl (fun m (key, value) => m.insert key value) p.settings,
      p.options ++ candidate.assignments⟩ := by
  rw [overlaid, foldl_setting, foldl_option, Candidate.assignments]

/-- For the root all options of the candidate count, and they come last. -/
theorem applicable_overlaid : (p.overlaid candidate).applicable recipe true =
    p.applicable recipe true ++ candidate.assignments := by
  rw [applicable, overlaid_eq, List.filter_append, applicable, List.append_cancel_left_eq,
    List.filter_eq_self]
  intro a ha
  obtain ⟨e, -, rfl⟩ := List.mem_map.mp ha
  exact decide_eq_true (.inl ⟨rfl, rfl⟩)

private theorem getLast?_filter_assignments (name : String) :
    (candidate.assignments.filter (·.name == name)).getLast?.map (·.value) =
      candidate.options.reverse.lookup name := by
  rw [List.getLast?_eq_head?_reverse, ← List.filter_reverse, List.head?_filter,
    Candidate.assignments, ← List.map_reverse]
  induction candidate.options.reverse with
  | nil => rfl
  | cons first rest ih =>
    rw [List.map_cons, List.find?_cons, List.lookup_cons, BEq.comm, ← ih]
    dsimp only
    cases name == first.1 <;> rfl

private theorem optionValue?_overlaid (name : String) :
    (p.overlaid candidate).optionValue? recipe true name =
      (recipe.options.get? name).bind fun _ =>
        (candidate.options.reverse.lookup name).or (p.optionValue? recipe true name) := by
  unfold optionValue?
  rw [applicable_overlaid, List.filter_append, List.getLast?_append, Option.map_or,
    getLast?_filter_assignments]
  cases recipe.options.get? name with
  | none => rfl
  | some decl => exact Option.or_assoc

/-- An option without a scope is declared, unless it is at fault. -/
theorem isSome_of_lookup {name value : String}
    (hfaultless : ∀ a ∈ (p.overlaid candidate).applicable recipe true, ∀ e, ¬a.Fault recipe e)
    (h : candidate.options.reverse.lookup name = some value) :
    (recipe.options.get? name).isSome = true := by
  rw [Option.isSome_iff_ne_none]
  intro hnone
  refine hfaultless ⟨none, name, value⟩ ?_ _ (.unknown rfl hnone)
  rw [applicable_overlaid]
  have hmem := List.mem_reverse.mp (OrderedMap.mem_of_lookup_eq_some h)
  exact List.mem_append_right _ (List.mem_map.mpr ⟨(name, value), hmem, rfl⟩)

/-- Substituting into what is requested gives what the profile with the candidate on top requests,
as far as the candidate names options that are declared. -/
theorem Requests.substituted (h : p.Requests recipe true requested)
    (hfaultless : ∀ a ∈ (p.overlaid candidate).applicable recipe true, ∀ e, ¬a.Fault recipe e) :
    (p.overlaid candidate).Requests recipe true (recipe.substituted requested candidate) where
  settings key value := by
    change (recipe.filterSettings (candidate.settings.foldl _ requested.settings)).get? key = _ ↔ _
    rw [Recipe.filterSettings, OrderedMap.get?_filter, Option.filter_eq_some_iff,
      Recipe.declaresSetting_iff, overlaid_eq, OrderedMap.get?_foldl_insert,
      OrderedMap.get?_foldl_insert]
    -- a setting that the recipe depends on has its value in the profile
    refine and_congr_left fun hdeclared => ?_
    have hsame : requested.settings.get? key = p.settings.get? key := by
      refine Option.ext fun value => ?_
      rw [h.settings, and_iff_left hdeclared]
    rw [hsame]
  options name := by
    change (candidate.options.foldl _ requested.options).get? name = _
    rw [OrderedMap.get?_foldl_insert, h.options, optionValue?_overlaid]
    cases hoption : recipe.options.get? name with
    | some decl => rfl
    | none =>
      have hlookup : candidate.options.reverse.lookup name = none := by
        by_contra hsome
        obtain ⟨value, hvalue⟩ := Option.ne_none_iff_exists'.mp hsome
        simpa [hoption] using isSome_of_lookup hfaultless hvalue
      rw [hlookup, optionValue?, hoption]
      rfl
  requires := h.requires

end Profile

/-- Preparing candidates identifies and judges each of them, whether it is kept or not. -/
theorem Recipe.exists_verdict_of_prepare {recipe : Recipe} {context : HookContext}
    {requires : Values} {index place : Nat} {seen : List String} {offered : List Candidate}
    {prepared : List PreparedCandidate} {candidate : Candidate}
    (h : recipe.prepare context requires index seen offered = .ok prepared)
    (hplace : offered[place]? = some candidate) :
    ∃ identity verdict,
      recipe.identify (recipe.substituted context.requested candidate) requires = .ok identity ∧
      recipe.judge { context with
        requested := recipe.substituted context.requested candidate
        info := identity.info } = .ok verdict := by
  induction offered generalizing index place seen prepared with
  | nil => cases hplace
  | cons first rest ih =>
    simp only [prepare, bind_eq_ok_iff] at h
    obtain ⟨identity, hidentify, verdict, hjudge, h⟩ := h
    cases place with
    | zero =>
      cases hplace
      exact ⟨identity, verdict, hidentify, hjudge⟩
    | succ place =>
      cases verdict with
      | invalid reason => exact ih h hplace
      | valid =>
        dsimp only at h
        split at h
        · exact ih h hplace
        · obtain ⟨later, hlater, -⟩ := bind_eq_ok_iff.mp h
          exact ih hlater hplace

namespace Graph

variable {g : Graph} {mode : IdentityMode} {i index : Nat} {n : Node} {recipe : Recipe}
  {candidate : Candidate} {prepared : List PreparedCandidate} {m : Configuration} {p : Profile}

/-- Where candidates have been prepared, the one at a position has been identified and judged as a
configuration, and has its identity if it was kept. -/
structure PreparesAs (g : Graph) (mode : IdentityMode) (i : Nat) (n : Node) (recipe : Recipe)
    (prepared : List PreparedCandidate) (index : Nat) (m : Configuration) : Prop where
  judged : ∃ identity verdict, recipe.identify m (g.contributions mode i) = .ok identity ∧
    recipe.judge ⟨n.reference, m, identity.info, g.dependencyInfos i⟩ = .ok verdict
  id_eq : ∀ q ∈ prepared, q.index = index → ∃ identity,
    recipe.identify m (g.contributions mode i) = .ok identity ∧ identity.id = q.id ∧
      recipe.judge ⟨n.reference, m, identity.info, g.dependencyInfos i⟩ = .ok .valid

private theorem preparesAs_substituted (hrecipe : n.recipe? = some recipe)
    (hoffers : g.Offers i n recipe index candidate) (h : g.candidates mode i n = .ok prepared) :
    g.PreparesAs mode i n recipe prepared index (recipe.substituted n.requested candidate) where
  judged := by
    obtain ⟨hook, offered, hhook, hoffered, hplace⟩ := hoffers
    simp only [candidates, hrecipe, hhook, bind_eq_ok_iff, crashOnError, mapError_eq_ok_iff] at h
    obtain ⟨offered', hoffered', hprepare⟩ := h
    obtain rfl := Except.ok.inj (hoffered.symm.trans hoffered')
    exact Recipe.exists_verdict_of_prepare hprepare hplace
  id_eq q hq hindex := by
    obtain ⟨recipe', candidate', hrecipe', hoffers', haccepts⟩ := exists_of_mem_candidates h hq
    obtain rfl := Option.some.inj (hrecipe.symm.trans hrecipe')
    obtain rfl := hoffers.unique (hindex ▸ hoffers')
    exact haccepts

/-- What a candidate stands for is what the profile of the root requests with the candidate on top,
wherever that can be requested: this is what is identified and judged for the candidate. -/
theorem preparesAs_of_overlaid (hrecipe : n.recipe? = some recipe)
    (hrequested : p.configure recipe true = .ok n.requested)
    (hoffers : g.Offers i n recipe index candidate)
    (hm : (p.overlaid candidate).configure recipe true = .ok m) :
    recipe.substituted n.requested candidate = m ∧
      ∀ prepared, g.candidates mode i n = .ok prepared →
        g.PreparesAs mode i n recipe prepared index m := by
  obtain ⟨-, hrequests⟩ := Profile.configure_eq_ok_iff.mp hrequested
  obtain ⟨hfaultless, hoverlaid⟩ := Profile.configure_eq_ok_iff.mp hm
  have hsame : recipe.substituted n.requested candidate = m := by
    rw [Profile.requests_iff.mp (hrequests.substituted hfaultless),
      Profile.requests_iff.mp hoverlaid]
  refine ⟨hsame, fun prepared h => ?_⟩
  rw [← hsame]
  exact preparesAs_substituted hrecipe hoffers h

/-- A candidate that names a setting twice, and one that the package does not depend on. -/
def olderCompiler : Candidate :=
  ⟨[("compiler.version", "11"), ("arch", "arm"), ("compiler.version", "12")],
    [("shared", "True")]⟩

/-- A package that offers itself for an older compiler. -/
def ofOlderCompiler : Recipe where
  reference := .ofTexts "zlib" "1.3.0"
  settings := ["os", "compiler"]
  options := .ofList [("shared", ⟨["True", "False"], some "False"⟩)]
  requires := []
  hooks := { Hooks.none with compatibility? := some fun _ => .ok [olderCompiler] }

/-- The candidate is what is requested with the compiler in its last version and the library
shared. -/
theorem preparesAs_ofOlderCompiler :
    let p := ((Profile.empty.setting "os" "Linux").setting "compiler.version" "13").setting
      "arch" "x86"
    let requested : Configuration :=
      ⟨.ofList [("compiler.version", "13"), ("os", "Linux")], .ofList [("shared", "False")], ∅⟩
    let m : Configuration :=
      ⟨.ofList [("compiler.version", "12"), ("os", "Linux")], .ofList [("shared", "True")], ∅⟩
    let n : Node := { Node.new ofOlderCompiler.reference (some ofOlderCompiler) with requested }
    p.configure ofOlderCompiler true = .ok requested ∧
      (p.overlaid olderCompiler).configure ofOlderCompiler true = .ok m ∧
      (Graph.ofRoot n).Offers 0 n ofOlderCompiler 0 olderCompiler ∧
      ofOlderCompiler.substituted requested olderCompiler = m ∧
      ∃ prepared, (Graph.ofRoot n).candidates .semver 0 n = .ok prepared ∧
        prepared.map (·.index) = [0] ∧
        (Graph.ofRoot n).PreparesAs .semver 0 n ofOlderCompiler prepared 0 m := by
  intro p requested m n
  have hrequested : p.configure ofOlderCompiler true = .ok requested := by decide +kernel
  have hm : (p.overlaid olderCompiler).configure ofOlderCompiler true = .ok m := by decide +kernel
  have hoffers : (Graph.ofRoot n).Offers 0 n ofOlderCompiler 0 olderCompiler :=
    ⟨_, _, rfl, rfl, rfl⟩
  have hview : ((Graph.ofRoot n).candidates .semver 0 n).toOption.map (·.map (·.index)) =
      some [0] := by decide +kernel
  obtain ⟨prepared, h, hindexes⟩ := exists_ok_of_map_toOption hview
  have hplaced : n.recipe? = some ofOlderCompiler := rfl
  obtain ⟨hsame, hprepares⟩ := preparesAs_of_overlaid hplaced hrequested hoffers hm
  exact ⟨hrequested, hm, hoffers, hsame, prepared, h, hindexes, hprepares prepared h⟩

end Graph

end Provision
