import Provision.Proofs.Expansion.Provenance
import Provision.Proofs.Resolution.Cycles
import Provision.Proofs.Spellings

/-!
Conflicts between constraints. Where a requirement does not accept the version of the node that its
name has, that version tells the two constraints apart. There are two ways to a conflict of
constraints that accept the same versions: overrides are compared as they are written, so that two
spellings of one release compete; and a root that an override has pinned after it was chosen is held
against the pin, while the conflict names the constraint of the requirement.
-/

namespace Provision

/-- Some override of a name has a constraint. -/
def Catalog.Overrides (c : Catalog) (root : RootSpec) (name : PackageName)
    (constraint : Constraint) : Prop :=
  ∃ req ∈ c.allRequirements root, req.isOverride = true ∧ req.name = name ∧
    req.constraint = constraint

namespace Expansion

variable {c : Catalog} {root : RootSpec} {pins : List Pin} {x : Expansion} {i : Nat}
  {req : Requirement} {met left : List Requirement} {name : PackageName} {constraint : Constraint}

/-- What is chosen for a name: the package at the root, or the greatest version that the first
requirement of the name allows. -/
inductive Introduced (c : Catalog) (root : RootSpec) : Choice → Prop
  | root {r : Reference} {recipe : Recipe} (hroot : root = .package r)
      (hrecipe : c.recipe? r = some recipe) :
      Introduced c root ⟨recipe.reference.name, recipe.reference.version, 0, consumerReference,
        .exact recipe.reference.version⟩
  | dependency {chosen : Choice} (hpos : 0 < chosen.node)
      (hgreatest : c.IsGreatest chosen.name chosen.constraint chosen.version) :
      Introduced c root chosen

private theorem Introduced.satisfies {chosen : Choice} (h : Introduced c root chosen) :
    chosen.constraint.isSatisfied chosen.version = true := by
  cases h with
  | root => exact Constraint.isSatisfied_exact_self _
  | dependency hpos hgreatest => exact hgreatest.satisfies

private theorem Underway.introduced (h : Underway c root pins i met left x) :
    ∀ chosen ∈ x.choices, Introduced c root chosen := by
  induction h with
  | start hstart hnode =>
    cases started_of_start hstart with
    | consumer => simp
    | package hrecipe =>
      intro chosen hchosen
      rw [List.mem_singleton.mp hchosen]
      exact .root rfl hrecipe
  | meet h hnode hmeet ih =>
    cases hmeet with
    | repeated => exact ih
    | pinned => exact ih
    | joined => exact ih
    | added version recipe hplain hfree hchoose =>
      intro chosen hchosen
      rcases List.mem_append.mp hchosen with hold | hnew
      · exact ih chosen hold
      · rw [List.mem_singleton.mp hnew]
        have hlt := h.queue_eq.1
        refine .dependency (by simp only; omega) ?_
        exact Catalog.isGreatest_of_chooseVersion (Catalog.choose_eq_ok hchoose).1
  | next h hqueue hnode ih => exact ih

/-- An override that has been met is one of the overrides that an expansion can meet. -/
theorem Underway.overrides_of_hasMet (h : Underway c root pins i met left x)
    (hmet : HasMet root i met x.graph name constraint) : c.Overrides root name constraint := by
  obtain ⟨j, n, req, hn, hreq, hoverridden⟩ := hmet
  have hrecipes := h.fromCatalog n (List.mem_of_getElem? hn)
  exact ⟨req, requirementsOf_subset root hrecipes req (h.metOf_subset hn hreq), hoverridden⟩

private theorem Underway.overrides_of_mem_pins (h : Underway c root pins i met left x)
    (hpins : ∀ pin ∈ pins, c.Overrides root pin.name pin.constraint) :
    ∀ pin ∈ x.pins, c.Overrides root pin.name pin.constraint := by
  intro pin hpin
  rcases h.hasMet_of_mem_pins pin hpin with hold | hmet
  · exact hpins pin hold
  · exact h.overrides_of_hasMet hmet

end Expansion

namespace Catalog

open Expansion

variable {c : Catalog} {root : RootSpec} {pins : List Pin} {name : PackageName}
  {firstBy secondBy : Reference} {first second : Constraint}

/-- Every pin comes from an override. -/
theorem Restarted.overrides (h : Restarted c root pins) :
    ∀ pin ∈ pins, c.Overrides root pin.name pin.constraint := by
  induction h with
  | none => simp
  | restart h hrestart ih =>
    obtain ⟨i, met, req, left, z, n, hunderway, -, hmeet⟩ := underway_of_restart hrestart
    obtain ⟨hoverride, -, -, rfl⟩ := restart_of_meet hmeet
    intro pin hpin
    rcases List.mem_append.mp hpin with hold | hnew
    · exact hunderway.overrides_of_mem_pins ih pin hold
    · rw [List.mem_singleton.mp hnew]
      exact ⟨req, hunderway.mem_allRequirements, hoverride, rfl, rfl⟩

/-- Why two constraints conflict. -/
inductive Conflicts (c : Catalog) (root : RootSpec) (name : PackageName) :
    Reference → Constraint → Constraint → Prop
  | disagreeing {firstBy : Reference} {first second : Constraint} (v : Version)
      (hv : first.isSatisfied v ≠ second.isSatisfied v) :
      Conflicts c root name firstBy first second
  /-- Two overrides are written differently and accept the same versions. -/
  | respelled {firstBy : Reference} {first second : Constraint}
      (hfirst : c.Overrides root name first) (hsecond : c.Overrides root name second)
      (hne : first ≠ second) (hagree : ∀ v, first.isSatisfied v = second.isSatisfied v) :
      Conflicts c root name firstBy first second
  /-- An override does not accept the version of the root, which the requirement accepts. -/
  | pinnedRoot {r : Reference} {recipe : Recipe} {pinned second : Constraint}
      (hroot : root = .package r) (hrecipe : c.recipe? r = some recipe)
      (hname : recipe.reference.name = name) (hpinned : c.Overrides root name pinned)
      (hrejects : pinned.isSatisfied recipe.reference.version = false)
      (haccepts : second.isSatisfied recipe.reference.version = true) :
      Conflicts c root name consumerReference (.exact recipe.reference.version) second

section Unmet

variable {x : Expansion} {i : Nat} {req : Requirement} {met left : List Requirement}

private theorem overrides_of_pin? {pin : Pin} (hpins : Restarted c root pins)
    (h : Underway c root pins i met left x) (hpin : x.pin? name = some pin) :
    c.Overrides root name pin.constraint := by
  obtain ⟨hmem, rfl⟩ := pin?_eq_some hpin
  exact h.overrides_of_mem_pins hpins.overrides pin hmem

private theorem conflicts_of_pin? {pin : Pin} (hpins : Restarted c root pins)
    (h : Underway c root pins i met (req :: left) x) (hoverride : req.isOverride = true)
    (hpin : x.pin? req.name = some pin) (hdiffers : pin.constraint ≠ req.constraint) :
    c.Conflicts root req.name pin.requester pin.constraint req.constraint := by
  by_cases hagree : ∀ v, pin.constraint.isSatisfied v = req.constraint.isSatisfied v
  · have hsecond : c.Overrides root req.name req.constraint :=
      ⟨req, h.mem_allRequirements, hoverride, rfl, rfl⟩
    exact .respelled (overrides_of_pin? hpins h hpin) hsecond hdiffers hagree
  · obtain ⟨v, hv⟩ := not_forall.mp hagree
    exact .disagreeing v hv

/-- What has been chosen satisfies the constraint that brought it in, so that it tells this one from
a constraint that it does not satisfy. -/
theorem conflicts_of_choice? {chosen : Choice} (hpins : Restarted c root pins)
    (h : Underway c root pins i met (req :: left) x) (hchosen : x.choice? req.name = some chosen)
    (hrejects : (x.constraintFor req).isSatisfied chosen.version = false) :
    c.Conflicts root req.name chosen.requester chosen.constraint req.constraint := by
  obtain ⟨hmem, hname⟩ := choice?_eq_some hchosen
  have hintroduced := h.introduced chosen hmem
  cases haccepts : req.constraint.isSatisfied chosen.version with
  | false => exact .disagreeing chosen.version (by simp [hintroduced.satisfies, haccepts])
  | true =>
    cases hpin : x.pin? req.name with
    | none => simp [constraintFor, hpin, haccepts] at hrejects
    | some pin =>
      have hpinned : pin.constraint.isSatisfied chosen.version = false := by
        simpa [constraintFor, hpin] using hrejects
      cases hintroduced with
      | dependency hpos hgreatest =>
        have hholds := h.isSatisfied_of_pin? hchosen hpin (.inl hpos)
        rw [hpinned] at hholds
        cases hholds
      | root hroot hrecipe =>
        exact .pinnedRoot hroot hrecipe hname (overrides_of_pin? hpins h hpin) hpinned haccepts

end Unmet

private theorem Overrides.mem_overrideNames (h : c.Overrides root name first) :
    name ∈ c.overrideNames root := by
  obtain ⟨req, hreq, hoverride, rfl, -⟩ := h
  exact List.mem_map_of_mem (List.mem_filter.mpr ⟨hreq, hoverride⟩)

/-- The constraints of a conflict disagree about a version, or overrides are behind it. -/
theorem conflicts_of_build
    (h : c.build root = .error (.conflict name firstBy first secondBy second)) :
    c.Conflicts root name firstBy first second ∧
      (name ∉ c.overrideNames root → ∃ v, first.isSatisfied v ≠ second.isSatisfied v) := by
  have hconflicts : c.Conflicts root name firstBy first second := by
    obtain ⟨last, hpins, hfails⟩ := failsUnder_of_expandFrom .none (build_eq_error_iff.mp h)
    generalize herror : GraphError.conflict name firstBy first secondBy second = e at hfails
    cases hfails with
    | unknownRoot => cases herror
    | unmet hunderway hnode hfails =>
      cases hfails with
      | competing pin hoverride hpin hdiffers =>
        cases herror
        exact conflicts_of_pin? hpins hunderway hoverride hpin hdiffers
      | rejected chosen hplain hchosen hrejects =>
        cases herror
        exact conflicts_of_choice? hpins hunderway hchosen hrejects
      | closing => cases herror
      | unavailable e hplain hfree hchoose =>
        rcases choose_error_cases hchoose with ⟨what, rfl⟩ | rfl <;> cases herror
  refine ⟨hconflicts, fun hfree => ?_⟩
  cases hconflicts with
  | disagreeing v hv => exact ⟨v, hv⟩
  | respelled hfirst => exact absurd hfirst.mem_overrideNames hfree
  | pinnedRoot hroot hrecipe hname hpinned => exact absurd hpinned.mem_overrideNames hfree

/-- A catalog with a library, and with a package that requires another version of it. -/
def ofDiamond : Catalog :=
  .ofIndex <| .ofRecipes [⟨.ofTexts "zlib" "1.2", [], ∅, [], .none⟩,
    ⟨.ofTexts "png" "1.6", [], ∅, [⟨.ofText "zlib", .exact (.ofText "1.3"), false, true⟩], .none⟩]

theorem conflicts_ofDiamond :
    let root : RootSpec := .consumer [⟨.ofText "zlib", .exact (.ofText "1.2"), false, true⟩,
      ⟨.ofText "png", .exact (.ofText "1.6"), false, true⟩]
    let first : Constraint := .exact (.ofText "1.2")
    let second : Constraint := .exact (.ofText "1.3")
    ofDiamond.build root = .error
        (.conflict (.ofText "zlib") consumerReference first (.ofTexts "png" "1.6") second) ∧
      ofDiamond.Conflicts root (.ofText "zlib") consumerReference first second ∧
        ∃ v, first.isSatisfied v ≠ second.isSatisfied v := by
  intro root first second
  have h : ofDiamond.build root = .error
      (.conflict (.ofText "zlib") consumerReference first (.ofTexts "png" "1.6") second) :=
    eq_error_of_failure? (by decide +kernel)
  obtain ⟨hconflicts, hdisagree⟩ := conflicts_of_build h
  exact ⟨h, hconflicts, hdisagree (by decide +kernel)⟩

/-- A catalog with a package, a library that overrides it with another version, and a tool that
requires it. -/
def ofPinnedRoot : Catalog :=
  let recipe (name version : String) (requires : List Requirement) : Recipe :=
    ⟨.ofTexts name version, [], ∅, requires, .none⟩
  let plain (name version : String) : Requirement :=
    ⟨.ofText name, .exact (.ofText version), false, true⟩
  .ofIndex <| .ofRecipes [recipe "app" "1.0" [plain "lib" "1.0", plain "tool" "1.0"],
    recipe "lib" "1.0" [⟨.ofText "app", .exact (.ofText "2.0"), true, true⟩],
    recipe "tool" "1.0" [plain "app" "1.0"]]

/-- Conflicts of constraints that accept the same versions: two spellings of one release, and a
requirement of the very version that the root has. -/
theorem agree_ofConflict :
    let zlib : PackageName := .ofText "zlib"
    let short : Constraint := .exact (.ofText "1.2")
    let long : Constraint := .exact (.ofText "1.2.0")
    let app : Reference := .ofTexts "app" "1.0"
    ofDiamond.build (.consumer [⟨zlib, short, true, true⟩, ⟨zlib, long, true, true⟩]) =
        .error (.conflict zlib consumerReference short consumerReference long) ∧
      (∀ v, short.isSatisfied v = long.isSatisfied v) ∧
      ofPinnedRoot.build (.package app) = .error (.conflict app.name consumerReference
        (.exact app.version) (.ofTexts "tool" "1.0") (.exact app.version)) := by
  intro zlib short long app
  refine ⟨eq_error_of_failure? (by decide +kernel), ?_, eq_error_of_failure? (by decide +kernel)⟩
  exact Constraint.isSatisfied_exact_congr (by decide +kernel)

end Catalog

end Provision
