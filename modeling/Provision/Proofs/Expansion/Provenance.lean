import Mathlib.Data.List.Forall2
import Provision.Proofs.Expansion.Evaluation
import Provision.Proofs.Expansion.Pins

/-!
Where the constraints of edges come from. A constraint that takes the place of a requirement's own
is that of a pin, and a pin is that of an override which has been met. Restarts keep all pins, so
the override need not be one of the graph that is built: it may have been met in an expansion that
was then restarted, by a package that the next expansion did not choose again.
-/

namespace Provision

def Graph.overrides (root : RootSpec) (g : Graph) : List Requirement :=
  (g.nodes.flatMap (Expansion.requirementsOf root)).filter (·.isOverride)

/-- A node of a graph has an override with a name and a constraint. -/
def Graph.Declares (root : RootSpec) (g : Graph) (name : PackageName) (constraint : Constraint) :
    Prop :=
  ∃ req ∈ g.overrides root, req.name = name ∧ req.constraint = constraint

/-- The edges of a graph stand for the requirements of its nodes, in order, under the constraint of
the requirement or one that is declared for the required name. -/
structure Graph.IsConstrained (root : RootSpec) (g : Graph)
    (declared : PackageName → Constraint → Prop) : Prop where
  exists_source : ∀ e ∈ g.edges, ∃ n, g.nodes[e.source]? = some n
  constrained : ∀ i n, g.nodes[i]? = some n →
    List.Forall₂ (fun e req => e.constraint = req.constraint ∨ declared req.name e.constraint)
      (g.dependencies i) ((Expansion.requirementsOf root n).filter (!·.isOverride))

private theorem Graph.IsConstrained.mono {root : RootSpec} {g : Graph}
    {declared declared' : PackageName → Constraint → Prop} (h : g.IsConstrained root declared)
    (himp : ∀ name constraint, declared name constraint → declared' name constraint) :
    g.IsConstrained root declared' where
  exists_source := h.exists_source
  constrained i n hn := by
    refine (h.constrained i n hn).imp fun e req hconstraint => ?_
    exact hconstraint.imp_right (himp req.name e.constraint)

namespace Expansion

variable {c : Catalog} {root : RootSpec} {pins : List Pin} {x y : Expansion} {i j : Nat}
  {requester : Reference} {req : Requirement} {met left : List Requirement} {name : PackageName}
  {constraint : Constraint} {pin : Pin}

/-- An override with a name and a constraint has been met while `met` are met of the node `i` in
hand. -/
def HasMet (root : RootSpec) (i : Nat) (met : List Requirement) (g : Graph) (name : PackageName)
    (constraint : Constraint) : Prop :=
  ∃ (j : Nat) (n : Node) (req : Requirement), g.nodes[j]? = some n ∧ req ∈ metOf root i met j n ∧
    req.isOverride = true ∧ req.name = name ∧ req.constraint = constraint

/-- What has been met stays met with the next requirement. -/
theorem HasMet.concat {g g' : Graph} (h : HasMet root i met g name constraint)
    (hgrow : ∀ (j : Nat) (n : Node), g.nodes[j]? = some n → g'.nodes[j]? = some n) :
    HasMet root i (met ++ [req]) g' name constraint := by
  obtain ⟨j, n, other, hn, hother, hoverride, hname, hconstraint⟩ := h
  refine ⟨j, n, other, hgrow j n hn, ?_, hoverride, hname, hconstraint⟩
  rw [metOf_concat]
  exact List.mem_append_left _ hother

private theorem hasMet_concat_self {g : Graph} {n : Node} (hn : g.nodes[i]? = some n)
    (hoverride : req.isOverride = true) :
    HasMet root i (met ++ [req]) g req.name req.constraint := by
  refine ⟨i, n, req, hn, ?_, hoverride, rfl, rfl⟩
  rw [metOf_concat, if_pos rfl]
  exact List.mem_append_right _ (List.mem_singleton_self req)

private theorem mem_pinsAfter (h : pin ∈ pinsAfter requester pins req) :
    pin ∈ pins ∨ req.isOverride = true ∧ pin = ⟨req.name, req.constraint, requester⟩ := by
  unfold pinsAfter at h
  split at h
  · rename_i hnew
    rw [Bool.and_eq_true] at hnew
    rcases List.mem_append.mp h with hold | hlast
    · exact .inl hold
    · exact .inr ⟨hnew.1, List.mem_singleton.mp hlast⟩
  · exact .inl h

/-- A pin is there from the start, or an override of its name has been met. -/
theorem Underway.hasMet_of_mem_pins (h : Underway c root pins i met left x) :
    ∀ pin ∈ x.pins, pin ∈ pins ∨ HasMet root i met x.graph pin.name pin.constraint := by
  induction h with
  | start hstart hnode =>
    obtain ⟨m, -, -, -, hpins, -⟩ := start_spec hstart
    intro pin hpin
    exact .inl (hpins ▸ hpin)
  | meet h hnode hmeet ih =>
    intro pin hpin
    rw [hmeet.pins_eq] at hpin
    rcases mem_pinsAfter hpin with hold | ⟨hoverride, rfl⟩
    · exact (ih pin hold).imp_right fun hmet => hmet.concat fun j n => hmeet.getElem?_nodes
    · exact .inr (hasMet_concat_self (hmeet.getElem?_nodes hnode) hoverride)
  | next h hqueue hnode ih =>
    obtain rfl := h.head_queue hqueue
    obtain ⟨m, hm, hreqs⟩ := h.exists_node
    rw [List.append_nil] at hreqs
    intro pin hpin
    refine (ih pin hpin).imp_right ?_
    rintro ⟨j, n, req, hn, hreq, hoverridden⟩
    exact ⟨j, n, req, hn, metOf_next hm hreqs hn ▸ hreq, hoverridden⟩

/-- A requirement is met under its own constraint or under that of a pin of its name. -/
theorem constraintFor_cases (x : Expansion) (req : Requirement) :
    x.constraintFor req = req.constraint ∨
      ∃ pin ∈ x.pins, pin.name = req.name ∧ pin.constraint = x.constraintFor req := by
  unfold constraintFor
  cases hpin : x.pin? req.name with
  | none => exact .inl rfl
  | some pin =>
    obtain ⟨hmem, hname⟩ := pin?_eq_some hpin
    exact .inr ⟨pin, hmem, hname, rfl⟩

private theorem Underway.pinned (h : Underway c root pins i met left x) :
    ∀ j n, x.graph.nodes[j]? = some n → List.Forall₂
      (fun e req => e.constraint = req.constraint ∨
        ∃ pin ∈ x.pins, pin.name = req.name ∧ pin.constraint = e.constraint)
      (x.graph.dependencies j) ((metOf root i met j n).filter (!·.isOverride)) := by
  have hpins {i requester req} {x y : Expansion} (hmeet : Met c i requester req x y) :
      x.pins ⊆ y.pins := (hmeet.pins_eq ▸ prefix_pinsAfter : x.pins <+: y.pins).subset
  refine h.forall₂_dependencies (R := fun _ pins e req => e.constraint = req.constraint ∨
    ∃ pin ∈ pins, pin.name = req.name ∧ pin.constraint = e.constraint) ?_ ?_
  · intro i requester req x y e other hmeet hold
    refine hold.imp_right ?_
    rintro ⟨pin, hpin, hpinned⟩
    exact ⟨pin, hpins hmeet hpin, hpinned⟩
  · intro i met left requester req x y e other h hmeet hstands
    rw [hstands.constraint_eq]
    refine (x.constraintFor_cases other).imp_right ?_
    rintro ⟨pin, hpin, hpinned⟩
    exact ⟨pin, hpins hmeet hpin, hpinned⟩

private theorem Underway.isConstrained (h : Underway c root pins i met [] x)
    (hlast : i + 1 = x.graph.size) :
    x.graph.IsConstrained root fun name constraint => x.graph.Declares root name constraint ∨
      ∃ pin ∈ pins, pin.name = name ∧ pin.constraint = constraint where
  exists_source e he := Graph.exists_getElem?_of_lt_size (h.edgesInside e he).1
  constrained j n hn := by
    have hpinned := h.pinned j n hn
    rw [h.metOf_eq hlast hn] at hpinned
    refine hpinned.imp fun e req hconstraint => hconstraint.imp_right ?_
    rintro ⟨pin, hpin, hname, hsame⟩
    rcases h.hasMet_of_mem_pins pin hpin with hold | ⟨k, m, other, hm, hother, hoverridden⟩
    · exact .inr ⟨pin, hold, hname, hsame⟩
    · obtain ⟨hoverride, hoverridden⟩ := hoverridden
      rw [h.metOf_eq hlast hm] at hother
      rw [hname, hsame] at hoverridden
      have hmem := List.mem_flatMap_of_mem (List.mem_of_getElem? hm) hother
      exact .inl ⟨other, List.mem_filter.mpr ⟨hmem, hoverride⟩, hoverridden⟩

end Expansion

namespace Catalog

open Expansion

variable {c : Catalog} {root : RootSpec} {pins : List Pin} {g : Graph}

/-- An override with a name and a constraint was met in an expansion that was then restarted. -/
inductive Abandoned (c : Catalog) (root : RootSpec) (name : PackageName) (constraint : Constraint) :
    Prop
  | intro {pins next : List Pin} {i : Nat} {met left : List Requirement} {req : Requirement}
      {x : Expansion} {n : Node} (hpins : Restarted c root pins)
      (hrestart : c.expand root pins = .error (.restart next))
      (h : Underway c root pins i met (req :: left) x) (hnode : x.graph.nodes[i]? = some n)
      (hmeet : Expansion.meet c i n.reference x req = .error (.restart next))
      (hmet : HasMet root i (met ++ [req]) x.graph name constraint) :
      Abandoned c root name constraint

/-- What is pinned after restarts was met in an expansion that was restarted. -/
theorem Restarted.abandoned (h : Restarted c root pins) :
    ∀ pin ∈ pins, Abandoned c root pin.name pin.constraint := by
  induction h with
  | none => simp
  | restart h hrestart ih =>
    obtain ⟨i, met, req, left, z, n, hunderway, hnode, hmeet⟩ := underway_of_restart hrestart
    obtain ⟨hoverride, -, -, rfl⟩ := restart_of_meet hmeet
    intro pin hpin
    rcases List.mem_append.mp hpin with hpin | hpin
    · rcases hunderway.hasMet_of_mem_pins pin hpin with hold | hmet
      · exact ih pin hold
      · exact .intro h hrestart hunderway hnode hmeet (hmet.concat fun j n hn => hn)
    · rw [List.mem_singleton.mp hpin]
      exact .intro h hrestart hunderway hnode hmeet (hasMet_concat_self hnode hoverride)

/-- An edge whose constraint is not that of its requirement carries that of an override of the same
name, which a node of the graph declares, or which was met in an expansion that was then restarted.
Without restarts a node of the graph declares it. -/
theorem isConstrained_of_build (h : c.build root = .ok g) :
    (g.IsConstrained root fun name constraint =>
      g.Declares root name constraint ∨ Abandoned c root name constraint) ∧
      ((∃ x, c.expand root [] = .ok x) → g.IsConstrained root (g.Declares root)) := by
  obtain ⟨-, pins, i, met, x, hrestarted, hunderway, hlast, rfl⟩ := build_eq_ok h
  have hconstrained := hunderway.isConstrained hlast
  constructor
  · refine hconstrained.mono fun name constraint hdeclared => hdeclared.imp_right ?_
    rintro ⟨pin, hpin, rfl, rfl⟩
    exact hrestarted.abandoned pin hpin
  · rintro ⟨first, hfirst⟩
    rw [hrestarted.eq_nil hfirst] at hconstrained
    refine hconstrained.mono fun name constraint hdeclared => ?_
    simpa using hdeclared

/-- The constraints of the edges of a node, and the names and constraints of its requirements. -/
def constraintsAt (root : RootSpec) (g : Graph) (i : Nat) :
    Option (List Constraint × List (PackageName × Constraint)) :=
  g.nodes[i]?.map fun n => ((g.dependencies i).map (·.constraint),
    ((requirementsOf root n).filter (!·.isOverride)).map fun req => (req.name, req.constraint))

private theorem declared_of_constraintsAt {declared : PackageName → Constraint → Prop} {i : Nat}
    {constraint own : Constraint} {name : PackageName} (h : g.IsConstrained root declared)
    (hat : constraintsAt root g i = some ([constraint], [(name, own)])) :
    constraint = own ∨ declared name constraint := by
  obtain ⟨n, hn, hconstraints⟩ := Option.map_eq_some_iff.mp hat
  obtain ⟨hedges, hrequirements⟩ := Prod.mk.inj hconstraints
  obtain ⟨e, hedge, rfl⟩ := List.map_eq_singleton_iff.mp hedges
  obtain ⟨req, hreq, hown⟩ := List.map_eq_singleton_iff.mp hrequirements
  obtain ⟨rfl, rfl⟩ := Prod.mk.inj hown
  have hconstrained := h.constrained i n hn
  rw [hedge, hreq] at hconstrained
  cases hconstrained with
  | cons hconstraint _ => exact hconstraint

theorem isConstrained_ofOverriddenLibrary :
    let root : RootSpec := .package (.ofTexts "app" "1.0")
    ∃ g, ofOverriddenLibrary.build root = .ok g ∧
      constraintsAt root g 1 =
        some ([.exact (.ofText "1.3")], [(.ofText "zlib", .exact (.ofText "1.2"))]) ∧
      g.IsConstrained root (g.Declares root) := by
  intro root
  have hview : (ofOverriddenLibrary.build root).toOption.map (constraintsAt root · 1) =
      some (some ([.exact (.ofText "1.3")], [(.ofText "zlib", .exact (.ofText "1.2"))])) := by
    decide +kernel
  have hfirst : (ofOverriddenLibrary.expand root []).toOption.isSome = true := by decide +kernel
  obtain ⟨g, h, hshown⟩ := exists_ok_of_map_toOption hview
  refine ⟨g, h, hshown, (isConstrained_of_build h).2 ?_⟩
  cases hexpand : ofOverriddenLibrary.expand root [] with
  | ok x => exact ⟨x, rfl⟩
  | error e =>
    rw [hexpand] at hfirst
    cases hfirst

/-- A catalog with two versions of a library, of which only the later one overrides what both
require, and with a tool that overrides the library with the earlier one. -/
def ofDroppedOverride : Catalog :=
  let recipe (name version : String) (requires : List Requirement) : Recipe :=
    ⟨.ofTexts name version, [], ∅, requires, .none⟩
  let plain (name version : String) : Requirement :=
    ⟨.ofText name, .exact (.ofText version), false, true⟩
  let override (name version : String) : Requirement :=
    ⟨.ofText name, .exact (.ofText version), true, true⟩
  .ofIndex <| [recipe "lib" "1.0" [plain "zlib" "1.2"],
    recipe "lib" "2.0" [override "zlib" "1.3", plain "zlib" "1.2"],
    recipe "tool" "1.0" [override "lib" "1.0"],
    recipe "zlib" "1.2" [], recipe "zlib" "1.3" []].foldl .upsert .empty

/-- An override stays in force when a restart has replaced the only package that declares it. -/
theorem not_isConstrained_ofDroppedOverride :
    let any := Constraint.range ⟨[⟨.greaterEq, 1, none, none, []⟩]⟩
    let root : RootSpec := .consumer [⟨.ofText "lib", any, false, true⟩,
      ⟨.ofText "tool", .exact (.ofText "1.0"), false, true⟩]
    ∃ g, ofDroppedOverride.build root = .ok g ∧
      ¬g.IsConstrained root fun _ constraint => ∃ name, g.Declares root name constraint := by
  intro any root
  let view (g : Graph) := (constraintsAt root g 1, (g.overrides root).map (·.constraint))
  have hview : (expandFromWithin ofDroppedOverride.index root 9 2 []).bind (fun result =>
      result.toOption.map fun x => view x.graph) =
      some (some ([.exact (.ofText "1.3")], [(.ofText "zlib", .exact (.ofText "1.2"))]),
        [.exact (.ofText "1.0")]) := by decide +kernel
  obtain ⟨g, h, hshown⟩ := exists_build_of_within view hview
  obtain ⟨hat, hoverrides⟩ := Prod.mk.inj hshown
  refine ⟨g, h, fun hconstrained => ?_⟩
  rcases declared_of_constraintsAt hconstrained hat with hown | ⟨name, req, hreq, -, hoverride⟩
  · exact absurd hown (by decide +kernel)
  · have hmem := List.mem_map_of_mem (f := (·.constraint)) hreq
    rw [hoverrides, List.mem_singleton, hoverride] at hmem
    exact absurd hmem (by decide +kernel)

end Catalog

end Provision
