import Provision.Proofs.Expansion.Soundness

/-!
Pins, and the overrides behind them. Meeting an override pins its name unless the name has a pin,
and no pin is ever taken back or replaced. The version of a node that a requirement has brought in
satisfies the pin of its name, whichever of the two came first, so an override binds every package
of a graph but the root, whose version is given and which a restart does not look at again.
-/

namespace Provision

namespace Expansion

variable {c : Catalog} {root : RootSpec} {pins : List Pin} {x y : Expansion} {i : Nat}
  {requester : Reference} {req : Requirement} {met left : List Requirement} {name : PackageName}
  {pin : Pin} {chosen : Choice}

def pinsAfter (requester : Reference) (pins : List Pin) (req : Requirement) : List Pin :=
  if req.isOverride && !isPinned pins req.name then
    pins ++ [⟨req.name, req.constraint, requester⟩]
  else pins

theorem pinsAfter_of_plain (hplain : req.isOverride = false) : pinsAfter requester pins req = pins := by
  simp [pinsAfter, hplain]

theorem prefix_pinsAfter : pins <+: pinsAfter requester pins req := by
  unfold pinsAfter
  split
  · exact List.prefix_append _ _
  · exact List.prefix_refl _

theorem isPinned_pinsAfter : isPinned (pinsAfter requester pins req) name =
    (isPinned pins name || req.isOverride && req.name == name) := by
  unfold pinsAfter
  split
  · rename_i hnew
    rw [Bool.and_eq_true] at hnew
    simp [isPinned, hnew.1]
  · rename_i hold
    cases hplain : req.isOverride with
    | false => simp
    | true =>
      have hpinned : isPinned pins req.name = true := by simpa [hplain] using hold
      by_cases hname : req.name = name
      · simp [← hname, hpinned]
      · simp [hname]

/-- No name has two pins. -/
theorem nodup_pinsAfter (hnodup : (pins.map (·.name)).Nodup) :
    ((pinsAfter requester pins req).map (·.name)).Nodup := by
  unfold pinsAfter
  split
  · rename_i hnew
    rw [Bool.and_eq_true, Bool.not_eq_true'] at hnew
    rw [List.map_append, List.map_singleton, List.nodup_append]
    refine ⟨hnodup, by simp, fun name hname other hother => ?_⟩
    obtain ⟨pin, hpin, rfl⟩ := List.mem_map.mp hname
    rw [List.mem_singleton.mp hother]
    have hfree := hnew.2
    rw [isPinned, List.any_eq_false] at hfree
    simpa using hfree pin hpin
  · exact hnodup

theorem isPinned_eq_false_of_pin? (hfree : x.pin? name = none) : isPinned x.pins name = false := by
  rw [isPinned_of_pin?, hfree]
  rfl

theorem Met.pins_eq (h : Met c i requester req x y) : y.pins = pinsAfter requester x.pins req := by
  cases h with
  | repeated pin hoverride hpin =>
    have hpinned : isPinned x.pins req.name = true := by
      rw [isPinned_of_pin?, hpin]
      rfl
    simp [pinsAfter, hpinned]
  | pinned hoverride hfree => simp [pinsAfter, hoverride, isPinned_eq_false_of_pin? hfree]
  | joined chosen hplain => exact (pinsAfter_of_plain hplain).symm
  | added version recipe hplain => exact (pinsAfter_of_plain hplain).symm

/-- The pin of a name stays the one that it is. -/
theorem Met.pin?_eq (h : Met c i requester req x y) (hpin : x.pin? name = some pin) :
    y.pin? name = some pin := by
  have hprefix : x.pins <+: y.pins := h.pins_eq ▸ prefix_pinsAfter
  exact hprefix.find?_eq_some hpin

theorem Met.choice?_eq (h : Met c i requester req x y) (hchosen : x.choice? name = some chosen) :
    y.choice? name = some chosen := by
  cases h with
  | repeated => exact hchosen
  | pinned => exact hchosen
  | joined => exact hchosen
  | added => exact (List.prefix_append _ _).find?_eq_some hchosen

/-- Meeting an override leaves a pin with its constraint. -/
theorem Met.pin?_of_override (h : Met c i requester req x y) (hoverride : req.isOverride = true) :
    ∃ pin, y.pin? req.name = some pin ∧ pin.constraint = req.constraint := by
  cases h with
  | repeated pin _ hpin hsame => exact ⟨pin, hpin, hsame⟩
  | pinned _ hfree =>
    refine ⟨⟨req.name, req.constraint, requester⟩, ?_, rfl⟩
    have hnone : x.pins.find? (·.name == req.name) = none := hfree
    simp [pin?, List.find?_append, hnone]
  | joined chosen hplain => exact absurd hoverride (by simp [hplain])
  | added version recipe hplain => exact absurd hoverride (by simp [hplain])

theorem Underway.pins_prefix (h : Underway c root pins i met left x) : pins <+: x.pins := by
  induction h with
  | start hstart hnode =>
    obtain ⟨n, -, -, -, hpins, -⟩ := start_spec hstart
    exact hpins ▸ List.prefix_refl pins
  | meet h hnode hmeet ih => exact ih.trans (hmeet.pins_eq ▸ prefix_pinsAfter)
  | next h hqueue hnode ih => exact ih

theorem Underway.nodup_pins (h : Underway c root pins i met left x)
    (hnodup : (pins.map (·.name)).Nodup) : (x.pins.map (·.name)).Nodup := by
  induction h with
  | start hstart hnode =>
    obtain ⟨n, -, -, -, hpins, -⟩ := start_spec hstart
    rwa [hpins]
  | meet h hnode hmeet ih => exact hmeet.pins_eq ▸ nodup_pinsAfter ih
  | next h hqueue hnode ih => exact ih

/-- Every override that has been met has a pin with its constraint. -/
theorem Underway.pin?_of_override (h : Underway c root pins i met left x) :
    ∀ j n, x.graph.nodes[j]? = some n → ∀ req ∈ metOf root i met j n, req.isOverride = true →
      ∃ pin, x.pin? req.name = some pin ∧ pin.constraint = req.constraint := by
  induction h with
  | start hstart hnode =>
    intro j n hn req hreq
    simp [metOf] at hreq
  | @meet i met left req x y m h hnode hmeet ih =>
    intro j n hn other hother hoverride
    have hlt := h.queue_eq.1
    rw [metOf_concat, List.mem_append] at hother
    rcases hother with hold | hnew
    · rcases hmeet.old_or_new hn with hn | rfl
      · obtain ⟨pin, hpin, hsame⟩ := ih j n hn other hold hoverride
        exact ⟨pin, hmeet.pin?_eq hpin, hsame⟩
      · -- no requirement of a node that has just come in is met
        rw [metOf, if_neg (by omega), if_neg (by omega)] at hold
        cases hold
    · split at hnew
      · rw [List.mem_singleton.mp hnew] at hoverride ⊢
        exact hmeet.pin?_of_override hoverride
      · cases hnew
  | next h hqueue hnode ih =>
    obtain rfl := h.head_queue hqueue
    obtain ⟨m, hm, hreqs⟩ := h.exists_node
    rw [List.append_nil] at hreqs
    intro j n hn
    rw [metOf_next hm hreqs hn]
    exact ih j n hn

/-- A package is what has been chosen for its name. -/
theorem Underway.exists_choice_of_isPackage (h : Underway c root pins i met left x) {j : Nat}
    {r : Reference} (hr : x.graph.IsPackage j r) :
    ∃ chosen, x.choice? r.name = some chosen ∧ chosen.node = j ∧ chosen.version = r.version := by
  obtain ⟨made, hmade, hnode, hreference⟩ := h.isPackage_iff.mp hr
  have hname : made.name = r.name := congrArg Reference.name hreference
  cases hchosen : x.choice? r.name with
  | none => exact absurd hname (choice?_eq_none hchosen made hmade)
  | some chosen =>
    have hpackage := h.isPackage_choice hchosen
    obtain rfl : chosen.node = j := h.namesUnique _ _ _ _ hpackage hr rfl
    exact ⟨chosen, rfl, rfl, congrArg Reference.version (hpackage.unique hr)⟩

/-- What has been chosen satisfies the pin of its name. Only a root package is not looked at when
its name has a pin from the start. -/
theorem Underway.isSatisfied_of_pin? (h : Underway c root pins i met left x)
    (hchosen : x.choice? name = some chosen) (hpin : x.pin? name = some pin)
    (hfree : 0 < chosen.node ∨ isPinned pins name = false) :
    pin.constraint.isSatisfied chosen.version = true := by
  induction h with
  | start hstart _ =>
    obtain ⟨n, -, -, -, hpins, -⟩ := start_spec hstart
    have hpinned : isPinned pins name = true := by
      rw [← hpins, isPinned_of_pin?]
      exact Option.isSome_iff_exists.mpr ⟨pin, hpin⟩
    cases started_of_start hstart with
    | consumer => cases hchosen
    | package =>
      -- the only choice is the root package
      obtain rfl := List.mem_singleton.mp (List.mem_of_find?_eq_some hchosen)
      rcases hfree with hnode | hfree
      · cases hnode
      · exact absurd hpinned (by simp [hfree])
  | @meet i met left req x y m h _ hmeet ih =>
    cases hmeet with
    | repeated => exact ih hchosen hpin
    | pinned hoverride hnone hfits =>
      simp only [pin?, List.find?_append, Option.or_eq_some_iff, List.find?_singleton] at hpin
      rcases hpin with hold | ⟨-, hnew⟩
      · exact ih hchosen hold
      · split at hnew
        · rename_i hname
          cases hnew
          obtain rfl := beq_iff_eq.mp hname
          exact hfits chosen hchosen
        · cases hnew
    | joined => exact ih hchosen hpin
    | added version recipe hplain hnone hchoose =>
      simp only [choice?, List.find?_append, Option.or_eq_some_iff, List.find?_singleton] at hchosen
      rcases hchosen with hold | ⟨-, hnew⟩
      · exact ih hold hpin
      · split at hnew
        · rename_i hname
          cases hnew
          obtain rfl := beq_iff_eq.mp hname
          have hconstraint : x.constraintFor req = pin.constraint := by
            have hpin : x.pin? req.name = some pin := hpin
            simp [constraintFor, hpin]
          have hgreatest := Catalog.isGreatest_of_chooseVersion (Catalog.choose_eq_ok hchoose).1
          exact hconstraint ▸ hgreatest.satisfies
        · cases hnew
  | next h hqueue _ ih => exact ih hchosen hpin

end Expansion

namespace Catalog

open Expansion

variable {c : Catalog} {root : RootSpec} {pins : List Pin}

theorem Restarted.eq_nil (h : Restarted c root pins) {x : Expansion}
    (hfirst : c.expand root [] = .ok x) : pins = [] := by
  induction h with
  | none => rfl
  | restart h hrestart ih =>
    rw [ih, hfirst] at hrestart
    cases hrestart

/-- An override of a node binds the version of its name in the whole graph: that of every package
but the root, and that of the root too unless a restart has pinned it. -/
theorem isSatisfied_of_override {g : Graph} (h : c.build root = .ok g) {i j : Nat} {n : Node}
    {req : Requirement} {r : Reference} (hn : g.nodes[i]? = some n)
    (hreq : req ∈ requirementsOf root n) (hoverride : req.isOverride = true)
    (hr : g.IsPackage j r) (hname : r.name = req.name)
    (hfree : 0 < j ∨ ∃ x, c.expand root [] = .ok x) :
    req.constraint.isSatisfied r.version = true := by
  obtain ⟨-, pins, k, met, x, hrestarted, hunderway, hlast, rfl⟩ := build_eq_ok h
  -- the node in hand is the last one, so that every override has been met
  have hmet : req ∈ metOf root k met i n := by
    rwa [hunderway.metOf_eq hlast hn]
  obtain ⟨pin, hpin, hsame⟩ := hunderway.pin?_of_override i n hn req hmet hoverride
  obtain ⟨chosen, hchosen, hnode, hversion⟩ := hunderway.exists_choice_of_isPackage hr
  have hbound : 0 < chosen.node ∨ isPinned pins r.name = false := by
    rcases hfree with hpos | ⟨first, hfirst⟩
    · exact .inl (hnode ▸ hpos)
    · rw [hrestarted.eq_nil hfirst]
      exact .inr rfl
  rw [← hname] at hpin
  rw [← hsame, ← hversion]
  exact hunderway.isSatisfied_of_pin? hchosen hpin hbound

/-- Whether node `i` has an override for package `j`, and what it makes of the version. -/
def overrideHolds? (root : RootSpec) (g : Graph) (i j : Nat) : Option Bool := do
  let n ← g.nodes[i]?
  let m ← g.nodes[j]?
  let req ← (requirementsOf root n).find? fun req =>
    req.isOverride && !m.isVirtual && m.reference.name == req.name
  return req.constraint.isSatisfied m.reference.version

private theorem exists_override_of_overrideHolds? {g : Graph} {i j : Nat} {holds : Bool}
    (h : overrideHolds? root g i j = some holds) :
    ∃ n req r, g.nodes[i]? = some n ∧ req ∈ requirementsOf root n ∧ req.isOverride = true ∧
      g.IsPackage j r ∧ r.name = req.name ∧ req.constraint.isSatisfied r.version = holds := by
  simp only [overrideHolds?, bind, Option.bind_eq_some_iff, pure, Option.some.injEq] at h
  obtain ⟨n, hn, m, hm, req, hfind, hholds⟩ := h
  have hreq := List.find?_some hfind
  simp only [Bool.and_eq_true, Bool.not_eq_true', beq_iff_eq] at hreq
  obtain ⟨⟨hoverride, hpackage⟩, hname⟩ := hreq
  exact ⟨n, req, m.reference, hn, List.mem_of_find?_eq_some hfind, hoverride,
    ⟨m, hm, hpackage, rfl⟩, hname, hholds⟩

/-- A catalog with a package that overrides the version of a library, and with another package
between them that requires a version of the library that does not exist. -/
def ofOverriddenLibrary : Catalog :=
  let recipe (name version : String) (requires : List Requirement) : Recipe :=
    ⟨.ofTexts name version, [], ∅, requires, .none⟩
  .ofIndex <| [recipe "app" "1.0" [⟨.ofText "zlib", .exact (.ofText "1.3"), true, true⟩,
      ⟨.ofText "png", .exact (.ofText "1.6"), false, true⟩],
    recipe "png" "1.6" [⟨.ofText "zlib", .exact (.ofText "1.2"), false, true⟩],
    recipe "zlib" "1.3" []].foldl .upsert .empty

theorem isSatisfied_ofOverriddenLibrary :
    let root : RootSpec := .package (.ofTexts "app" "1.0")
    ∃ g n req r, ofOverriddenLibrary.build root = .ok g ∧ g.nodes[0]? = some n ∧
      req ∈ requirementsOf root n ∧ req.isOverride = true ∧ g.IsPackage 2 r ∧ r.name = req.name ∧
      req.constraint.isSatisfied r.version = true := by
  intro root
  have hview : (ofOverriddenLibrary.build root).toOption.map
      (fun g => (overrideHolds? root g 0 2).isSome) = some true := by decide +kernel
  obtain ⟨g, h, hshown⟩ := exists_ok_of_map_toOption hview
  obtain ⟨holds, hholds⟩ := Option.isSome_iff_exists.mp hshown
  obtain ⟨n, req, r, hn, hreq, hoverride, hr, hname, -⟩ := exists_override_of_overrideHolds? hholds
  exact ⟨g, n, req, r, h, hn, hreq, hoverride, hr, hname,
    isSatisfied_of_override h hn hreq hoverride hr hname (.inl (by decide))⟩

/-- A catalog with two versions of a package, of which the earlier one requires a library that
overrides it with the later one. -/
def ofOverriddenRoot : Catalog :=
  let recipe (name version : String) (requires : List Requirement) : Recipe :=
    ⟨.ofTexts name version, [], ∅, requires, .none⟩
  .ofIndex <| [recipe "app" "1.0" [⟨.ofText "lib", .exact (.ofText "1.0"), false, true⟩],
    recipe "app" "2.0" [],
    recipe "lib" "1.0" [⟨.ofText "app", .exact (.ofText "2.0"), true, true⟩]].foldl .upsert .empty

/-- An override that restarts an expansion has no hold on the root. -/
theorem not_isSatisfied_ofOverriddenRoot :
    let root : RootSpec := .package (.ofTexts "app" "1.0")
    ∃ g n req r, ofOverriddenRoot.build root = .ok g ∧ g.nodes[1]? = some n ∧
      req ∈ requirementsOf root n ∧ req.isOverride = true ∧ g.IsPackage 0 r ∧ r.name = req.name ∧
      req.constraint.isSatisfied r.version = false := by
  intro root
  have hview : (ofOverriddenRoot.build root).toOption.map (overrideHolds? root · 1 0) =
      some (some false) := by decide +kernel
  obtain ⟨g, h, hshown⟩ := exists_ok_of_map_toOption hview
  obtain ⟨n, req, r, hoverridden⟩ := exists_override_of_overrideHolds? hshown
  exact ⟨g, n, req, r, h, hoverridden⟩

end Catalog

end Provision
