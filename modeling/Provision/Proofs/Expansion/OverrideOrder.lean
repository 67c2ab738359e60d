import Provision.Proofs.Expansion.OverridesFirst

/-!
Where a consumer lists its overrides matters to a graph in two cases only: a requirement that stands
ahead of the override of its name cannot be met without it, or chooses a version that the override
accepts but would not choose. Otherwise the graph is the one that comes of the overrides first. A
restart, which only the other orders need while the requirements of the consumer are met, leads to
the same pins.
-/

namespace Provision

namespace Catalog

open Expansion

variable {c : Catalog} {root : RootSpec} {pins next : List Pin} {x z : Expansion}
  {requirements : List Requirement}

/-- An expansion in the order of the list, next to one from the same pins with the overrides first. -/
inductive Reordered (c : Catalog) (requirements : List Requirement) (pins : List Pin) :
    Except Interruption Expansion → Except Interruption Expansion → Prop
  | alike {r s : Except Interruption Expansion} (h : Parallel r s) : Reordered c requirements pins r s
  /-- The override that restarts the one is no news for the other. -/
  | restarted {s : Except Interruption Expansion} {next : List Pin}
      (hpins : pinsAfterAll consumerReference next requirements =
        pinsAfterAll consumerReference pins requirements) :
      Reordered c requirements pins (.error (.restart next)) s
  | failed {s : Except Interruption Expansion} {e : GraphError}
      (h : AheadSettled c requirements → ∃ e', s = .error (.failed e')) :
      Reordered c requirements pins (.error (.failed e)) s

private theorem reordered_expand (hchoose : OverridesChoose c requirements) (pins : List Pin) :
    Reordered c requirements pins (c.expand (.consumer requirements) pins)
      (c.expand (.consumer (overridesFirst requirements)) pins) := by
  rw [expand_consumer, expand_consumer]
  cases hmeet : meetConsumer c requirements pins with
  | ok x =>
    obtain ⟨z, hz, halike, hpins⟩ := exists_alike_of_meetConsumer hchoose hmeet
    rw [hz]
    exact .alike (parallel_run (underway_of_meetConsumer hmeet) halike hpins)
  | error e =>
    cases e with
    | restart next =>
      obtain ⟨met, req, left, x, hx, hrestart⟩ := exists_underway_of_error hmeet
      obtain ⟨hoverride, hfree, -, rfl⟩ := restart_of_meet hrestart
      apply Reordered.restarted
      -- the next pins are those that the requirements up to the override leave
      have hnext : x.pins ++ [⟨req.name, req.constraint, consumerReference⟩] =
          pinsAfterAll consumerReference pins (met ++ [req]) := by
        rw [pinsAfterAll_append, ← hx.pins_consumer]
        simp [pinsAfterAll, pinsAfter, hoverride, isPinned_eq_false_of_pin? hfree]
      have hsplit : requirements = (met ++ [req]) ++ left := by
        rw [hx.requirements_eq, List.append_assoc, List.singleton_append]
      rw [hnext, hsplit, pinsAfterAll_again]
    | failed e =>
      apply Reordered.failed
      intro hahead
      obtain ⟨e', hfailed⟩ := exists_failed_of_meetConsumer hahead hmeet
      rw [hfailed]
      exact ⟨e', rfl⟩

/-- With the overrides first, only the pins that stand in the end matter. -/
theorem expandFrom_overridesFirst_of_pins (h : pinsAfterAll consumerReference next requirements =
      pinsAfterAll consumerReference pins requirements)
    (hok : c.expandFrom (.consumer (overridesFirst requirements)) next = .ok z) :
    c.expandFrom (.consumer (overridesFirst requirements)) pins = .ok z := by
  by_cases hagree : PinsAgree (pinsAfterAll consumerReference pins requirements) requirements
  · have hsame : c.expand (.consumer (overridesFirst requirements)) pins =
        c.expand (.consumer (overridesFirst requirements)) next := by
      rw [expand_consumer, expand_consumer, meetConsumer_overridesFirst hagree,
        meetConsumer_overridesFirst (h ▸ hagree), h]
    rw [expandFrom_congr hsame, hok]
  · obtain ⟨e, hfailed⟩ := exists_failed_overridesFirst (c := c) (h ▸ hagree)
    have hexpand : c.expand (.consumer (overridesFirst requirements)) next = .error (.failed e) := by
      rw [expand_consumer, hfailed]
      rfl
    rw [expandFrom_of_failed hexpand] at hok
    cases hok

private theorem expandFrom_overridesFirst
    (hchoose : OverridesChoose c requirements) (pins : List Pin) :
    (∀ x, c.expandFrom (.consumer requirements) pins = .ok x →
        ∃ z, c.expandFrom (.consumer (overridesFirst requirements)) pins = .ok z ∧ Alike x z) ∧
      (AheadSettled c requirements →
        ∀ z, c.expandFrom (.consumer (overridesFirst requirements)) pins = .ok z →
          ∃ x, c.expandFrom (.consumer requirements) pins = .ok x ∧ Alike x z) := by
  -- along the restarts of the order of the list, which the other may not need
  fun_induction expandFrom c (.consumer requirements) pins with
  | case1 pins x hexpand =>
    have hreordered := reordered_expand hchoose pins
    rw [hexpand] at hreordered
    cases hreordered with
    | alike hsame =>
      obtain ⟨z, hz, halike, -⟩ := hsame.exists_ok
      have hfirst := expandFrom_of_ok hz
      constructor
      · intro x' hx'
        cases hx'
        exact ⟨z, hfirst, halike⟩
      · intro _ z' hz'
        rw [hfirst] at hz'
        cases hz'
        exact ⟨x, rfl, halike⟩
  | case2 pins e hexpand =>
    have hreordered := reordered_expand hchoose pins
    rw [hexpand] at hreordered
    constructor
    · intro x hx
      cases hx
    · intro hahead z hz
      have hfirst : ∃ e', c.expand (.consumer (overridesFirst requirements)) pins =
          .error (.failed e') := by
        cases hreordered with
        | alike hsame => exact hsame.exists_failed
        | failed hfailed => exact hfailed hahead
      obtain ⟨e', hfirst⟩ := hfirst
      rw [expandFrom_of_failed hfirst] at hz
      cases hz
  | case3 pins next hexpand ih =>
    have hreordered := reordered_expand hchoose pins
    rw [hexpand] at hreordered
    cases hreordered with
    | alike hsame => rwa [expandFrom_of_restart hsame.eq_restart]
    | restarted hpins =>
      constructor
      · intro x hx
        obtain ⟨z, hz, halike⟩ := ih.1 x hx
        exact ⟨z, expandFrom_overridesFirst_of_pins hpins hz, halike⟩
      · intro hahead z hz
        exact ih.2 hahead z (expandFrom_overridesFirst_of_pins hpins.symm hz)

private theorem build_eq_ok_iff {g : Graph} : c.build root = .ok g ↔
    ∃ x layers, c.expandFrom root [] = .ok x ∧ x.graph.layers = .ok layers ∧ x.graph = g := by
  simp only [build, bind_eq_ok_iff]
  constructor
  · rintro ⟨x, hx, layers, hlayers, h⟩
    cases h
    exact ⟨x, layers, hx, hlayers, rfl⟩
  · rintro ⟨x, layers, hx, hlayers, rfl⟩
    exact ⟨x, hx, layers, hlayers, rfl⟩

/-- Moving the overrides of a consumer to the front changes no version that is chosen, as long as
overrides choose what they accept of the versions that are chosen ahead of them; and it changes
nothing of whether there is a graph, if what asks ahead of the overrides can be met. -/
theorem build_overridesFirst (hchoose : OverridesChoose c requirements) :
    (∀ g, c.build (.consumer requirements) = .ok g →
        ∃ g', c.build (.consumer (overridesFirst requirements)) = .ok g' ∧ g'.nodes = g.nodes) ∧
      (AheadSettled c requirements →
        ∀ g', c.build (.consumer (overridesFirst requirements)) = .ok g' →
          ∃ g, c.build (.consumer requirements) = .ok g ∧ g.nodes = g'.nodes) := by
  obtain ⟨hlisted, hfirst⟩ := expandFrom_overridesFirst hchoose []
  constructor
  · intro g hg
    obtain ⟨x, layers, hx, hlayers, rfl⟩ := build_eq_ok_iff.mp hg
    obtain ⟨z, hz, halike⟩ := hlisted x hx
    rw [halike.graph.sameOutline.layers_eq] at hlayers
    exact ⟨z.graph, build_eq_ok_iff.mpr ⟨z, layers, hz, hlayers, rfl⟩, halike.graph.nodes_eq.symm⟩
  · intro hahead g' hg'
    obtain ⟨z, layers, hz, hlayers, rfl⟩ := build_eq_ok_iff.mp hg'
    obtain ⟨x, hx, halike⟩ := hfirst hahead z hz
    rw [← halike.graph.sameOutline.layers_eq] at hlayers
    exact ⟨x.graph, build_eq_ok_iff.mpr ⟨x, layers, hx, hlayers, rfl⟩, halike.graph.nodes_eq⟩

section Versions

def libraryRecipe (version : String) : Recipe :=
  ⟨.ofTexts "zlib" version, [], ∅, [], .none⟩

def ofVersions (versions : List String) : Catalog :=
  .ofIndex <| (versions.map libraryRecipe).foldl .upsert .empty

def libraryRequirement (constraint : Constraint) (isOverride : Bool) : Requirement :=
  ⟨.ofText "zlib", constraint, isOverride, true⟩

def withLibrary (constraint met : Constraint) (version : String) (pins : List Pin) : Expansion :=
  (ofConsumer pins).addChoice 0 consumerReference (libraryRequirement constraint false) met
    (.ofText version) (libraryRecipe version)

private theorem choose_ofVersions (constraint : Constraint) (version : String)
    (hfind : [Version.ofText "1.2", .ofText "1.3"].reverse.find? constraint.isSatisfied =
      some (.ofText version))
    (hrecipe : (ofVersions ["1.2", "1.3"]).recipe? (.ofTexts "zlib" version) =
      some (libraryRecipe version)) :
    (ofVersions ["1.2", "1.3"]).choose (.ofText "zlib") constraint consumerReference =
      .ok (.ofText version, libraryRecipe version) := by
  have havailable : (ofVersions ["1.2", "1.3"]).available (.ofText "zlib") =
      [.ofText "1.2", .ofText "1.3"] := by
    rw [available, List.mergeSort_of_pairwise]
    · decide +kernel
    · decide +kernel
  have hversion : (ofVersions ["1.2", "1.3"]).chooseVersion (.ofText "zlib") constraint
      consumerReference = .ok (.ofText version) := by
    simp only [chooseVersion, havailable, hfind]
    rfl
  have hrecipe : (ofVersions ["1.2", "1.3"]).recipe? ⟨.ofText "zlib", .ofText version⟩ =
      some (libraryRecipe version) := hrecipe
  simp [choose, hversion, hrecipe, bind, Except.bind, pure, Except.pure]

private theorem meet_withLibrary {constraint met : Constraint} {version : String}
    (hmet : (ofConsumer pins).constraintFor (libraryRequirement constraint false) = met)
    (hchoose : c.choose (.ofText "zlib") met consumerReference =
      .ok (.ofText version, libraryRecipe version)) :
    meet c 0 consumerReference (ofConsumer pins) (libraryRequirement constraint false) =
      .ok (withLibrary constraint met version pins) := by
  subst hmet
  exact meet_of_found rfl rfl hchoose

/-- An override of the library keeps the version that it accepts. -/
theorem meet_override_withLibrary {constraint met override : Constraint} {version : String} :
    meet c 0 consumerReference (withLibrary constraint met version [])
        (libraryRequirement override true) =
      if override.isSatisfied (.ofText version) then
        .ok (withLibrary constraint met version [⟨.ofText "zlib", override, consumerReference⟩])
      else .error (.restart [⟨.ofText "zlib", override, consumerReference⟩]) := by
  rw [meet_of_override rfl]
  simp [registerPin, withLibrary, libraryRequirement, pin?, choice?, addChoice, ofConsumer]

private theorem meetConsumer_pair {a b : Requirement}
    (h : meet c 0 consumerReference (ofConsumer pins) a = .ok x) :
    meetConsumer c [a, b] pins = meet c 0 consumerReference x b := by
  rw [meetConsumer, List.foldlM_cons, h]
  change [b].foldlM (meet c 0 consumerReference) x = _
  rw [List.foldlM_cons]
  cases meet c 0 consumerReference x b with
  | ok y => rfl
  | error e => rfl

private theorem build_withLibrary {constraint met : Constraint} {version : String} {pins : List Pin}
    (h : meetConsumer c requirements [] = .ok (withLibrary constraint met version pins))
    (hlayers : (withLibrary constraint met version pins).graph.layers.toOption.isSome = true) :
    c.build (.consumer requirements) = .ok (withLibrary constraint met version pins).graph := by
  have hrun : (withLibrary constraint met version pins).run c (.consumer requirements) =
      .ok { withLibrary constraint met version pins with queue := [] } := by
    rw [run_of_cons (j := 1) (n := .new ⟨.ofText "zlib", .ofText version⟩ (libraryRecipe version)) rfl
      rfl]
    exact run_of_nil rfl
  have hexpand : c.expand (.consumer requirements) [] =
      .ok { withLibrary constraint met version pins with queue := [] } := by
    rw [expand_consumer, h]
    exact hrun
  cases hresult : (withLibrary constraint met version pins).graph.layers with
  | error e =>
    rw [hresult] at hlayers
    cases hlayers
  | ok layers => exact build_eq_ok_iff.mpr ⟨_, layers, expandFrom_of_ok hexpand, hresult, rfl⟩

/-- An override that restarts the expansion leads to the version that it leads to in front. -/
theorem build_overridesFirst_ofVersions :
    let old := libraryRequirement (.exact (.ofText "1.2")) false
    let new := libraryRequirement (.exact (.ofText "1.3")) true
    let c := ofVersions ["1.2", "1.3"]
    OverridesChoose c [old, new] ∧ AheadSettled c [old, new] ∧
      (∃ pins, c.expand (.consumer [old, new]) [] = .error (.restart pins)) ∧
      ∃ g g', c.build (.consumer [old, new]) = .ok g ∧
        c.build (.consumer (overridesFirst [old, new])) = .ok g' ∧ g'.nodes = g.nodes ∧
        g.IsPackage 1 (.ofTexts "zlib" "1.3") := by
  intro old new c
  let pin : Pin := ⟨.ofText "zlib", .exact (.ofText "1.3"), consumerReference⟩
  have hold := choose_ofVersions (.exact (.ofText "1.2")) "1.2" (by decide +kernel) rfl
  have hnew := choose_ofVersions (.exact (.ofText "1.3")) "1.3" (by decide +kernel) rfl
  have hrefused : new.constraint.isSatisfied (.ofText "1.2") = false := by decide +kernel
  have hahead : askingAhead new.name [old, new] = [old] := by decide +kernel
  have honly : ∀ req ∈ [old, new], req.isOverride = true → req = new := by decide +kernel
  have hchoose : OverridesChoose c [old, new] := by
    intro req hreq hoverride first hfirst v hv hfits
    obtain rfl := honly req hreq hoverride
    rw [hahead] at hfirst
    cases hfirst
    obtain rfl := Except.ok.inj (hv.symm.trans (choose_eq_ok hold).1)
    rw [hrefused] at hfits
    cases hfits
  have hsettled : AheadSettled c [old, new] := by
    intro req hreq hoverride _
    obtain rfl := honly req hreq hoverride
    exact ⟨.ofText "1.2", old, [], libraryRecipe "1.2", hahead, hold, by simp⟩
  have hrestart : c.expand (.consumer [old, new]) [] = .error (.restart [pin]) := by
    have hmeet : meetConsumer c [old, new] [] = .error (.restart [pin]) := by
      rw [meetConsumer_pair (meet_withLibrary rfl hold), meet_override_withLibrary,
        if_neg (by decide +kernel)]
    rw [expand_consumer, hmeet]
    rfl
  have hfirst : meetConsumer c (overridesFirst [old, new]) [] =
      .ok (withLibrary (.exact (.ofText "1.2")) (.exact (.ofText "1.3")) "1.3" [pin]) := by
    have hoverride : meet c 0 consumerReference (ofConsumer []) new = .ok (ofConsumer [pin]) :=
      meet_ofConsumer rfl fun _ hnone => nomatch hnone
    exact (meetConsumer_pair hoverride).trans (meet_withLibrary (by decide +kernel) hnew)
  obtain ⟨hlisted, hmoved⟩ := build_overridesFirst hchoose
  obtain ⟨g, hg, hsame⟩ := hmoved hsettled _ (build_withLibrary hfirst (by decide +kernel))
  obtain ⟨g', hg', hnodes⟩ := hlisted g hg
  refine ⟨hchoose, hsettled, ⟨_, hrestart⟩, g, g', hg, hg', hnodes, ?_⟩
  unfold Graph.IsPackage
  rw [hsame]
  exact ⟨_, rfl, rfl, rfl⟩

/-- The order matters where a requirement fails before its override is read, and where an override
accepts a version that it would not choose. -/
theorem exists_build_overridesFirst_ne :
    let failing := [libraryRequirement (.exact (.ofText "1.0")) false,
      libraryRequirement (.exact (.ofText "2.0")) true]
    let any := Constraint.range ⟨[⟨.greaterEq, 1, none, none, []⟩]⟩
    let kept := [libraryRequirement (.exact (.ofText "1.2")) false, libraryRequirement any true]
    (∃ e g, (ofVersions ["2.0"]).build (.consumer failing) = .error e ∧
        (ofVersions ["2.0"]).build (.consumer (overridesFirst failing)) = .ok g) ∧
      ∃ g g', (ofVersions ["1.2", "1.3"]).build (.consumer kept) = .ok g ∧
        (ofVersions ["1.2", "1.3"]).build (.consumer (overridesFirst kept)) = .ok g' ∧
        g.IsPackage 1 (.ofTexts "zlib" "1.2") ∧ g'.IsPackage 1 (.ofTexts "zlib" "1.3") := by
  intro failing any kept
  constructor
  · have hlisted : ((ofVersions ["2.0"]).build (.consumer failing)).toOption.isNone = true := by
      decide +kernel
    have hfirst : ((ofVersions ["2.0"]).build (.consumer (overridesFirst failing))).toOption.map
        (·.size) = some 2 := by decide +kernel
    obtain ⟨g, hg, -⟩ := exists_ok_of_map_toOption hfirst
    cases hbuild : (ofVersions ["2.0"]).build (.consumer failing) with
    | ok g =>
      rw [hbuild] at hlisted
      cases hlisted
    | error e => exact ⟨e, g, rfl, hg⟩
  · let pin : Pin := ⟨.ofText "zlib", any, consumerReference⟩
    have hold := choose_ofVersions (.exact (.ofText "1.2")) "1.2" (by decide +kernel) rfl
    have hnew := choose_ofVersions any "1.3" (by decide +kernel) rfl
    have hlisted : meetConsumer (ofVersions ["1.2", "1.3"]) kept [] =
        .ok (withLibrary (.exact (.ofText "1.2")) (.exact (.ofText "1.2")) "1.2" [pin]) := by
      rw [meetConsumer_pair (meet_withLibrary (by rfl : _ = Constraint.exact _) hold),
        meet_override_withLibrary, if_pos (by decide +kernel)]
    have hfirst : meetConsumer (ofVersions ["1.2", "1.3"]) (overridesFirst kept) [] =
        .ok (withLibrary (.exact (.ofText "1.2")) any "1.3" [pin]) := by
      have hoverride : meet (ofVersions ["1.2", "1.3"]) 0 consumerReference (ofConsumer [])
          (libraryRequirement any true) = .ok (ofConsumer [pin]) :=
        meet_ofConsumer rfl fun _ hnone => nomatch hnone
      exact (meetConsumer_pair hoverride).trans (meet_withLibrary (by decide +kernel) hnew)
    refine ⟨_, _, build_withLibrary hlisted (by decide +kernel),
      build_withLibrary hfirst (by decide +kernel), ⟨_, rfl, rfl, rfl⟩, ⟨_, rfl, rfl, rfl⟩⟩

end Versions

end Catalog

end Provision
