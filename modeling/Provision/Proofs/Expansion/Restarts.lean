import Mathlib.Data.List.Dedup
import Mathlib.Data.List.Perm.Subperm
import Provision.Proofs.Expansion.Pins

/-!
How often a graph is expanded. A restart pins one more of the names that overrides are for and takes
no pin back, so that there are at most as many restarts as there are such names, whatever becomes of
the packages that declare them. Within one expansion every package name comes onto the queue at most
once, since the nodes come off it in the order of their indexes and each name has one node.
-/

namespace Provision

namespace Expansion

/-- How an expansion ends: before its start, with all requirements met, or at a requirement that
cannot be met. -/
inductive Ends (c : Catalog) (root : RootSpec) (pins : List Pin) :
    Except Interruption Expansion → Prop
  | unknownRoot {e : GraphError} (hstart : start c root pins = .error e) :
      Ends c root pins (.error (.failed e))
  | complete {i : Nat} {met : List Requirement} {x : Expansion}
      (h : Underway c root pins i met [] x) (hlast : i + 1 = x.graph.size) :
      Ends c root pins (.ok x)
  | interrupted {i : Nat} {met left : List Requirement} {req : Requirement} {x : Expansion}
      {n : Node} {e : Interruption} (h : Underway c root pins i met (req :: left) x)
      (hnode : x.graph.nodes[i]? = some n) (hmeet : meet c i n.reference x req = .error e) :
      Ends c root pins (.error e)

variable {c : Catalog} {root : RootSpec} {pins : List Pin} {x : Expansion} {i j : Nat}
  {met left : List Requirement}

theorem ends_of_expand (c : Catalog) (root : RootSpec) (pins : List Pin) :
    Ends c root pins (c.expand root pins) := by
  cases hstart : start c root pins with
  | error e =>
    have hexpand : c.expand root pins = .error (.failed e) := by rw [Catalog.expand, hstart]
    exact hexpand ▸ .unknownRoot hstart
  | ok x₀ =>
    have hexpand : c.expand root pins = x₀.run c root := by rw [Catalog.expand, hstart]
    cases hrun : x₀.run c root with
    | ok x =>
      rw [hrun] at hexpand
      obtain ⟨i, met, hunderway, hlast⟩ := Catalog.underway_of_expand hexpand
      exact hexpand ▸ .complete hunderway hlast
    | error e =>
      obtain ⟨i, met, req, left, z, n, hunderway, hnode, hmeet⟩ :=
        Paused.run_error (.inl hstart) hrun
      rw [hexpand, hrun]
      exact .interrupted hunderway hnode hmeet

def packageName? (g : Graph) (j : Nat) : Option PackageName :=
  (g.nodes[j]?.filter (!·.isVirtual)).map (·.reference.name)

/-- The package names that have come onto the queue when the node `i` is in hand: of the nodes up to
that one, which have come off it again, and of the nodes that are still on it. -/
def enqueued (x : Expansion) (i : Nat) : List PackageName :=
  (List.range (i + 1) ++ x.queue).filterMap (packageName? x.graph)

private theorem exists_isPackage_of_packageName? {g : Graph} {name : PackageName}
    (h : packageName? g j = some name) : ∃ r, g.IsPackage j r ∧ r.name = name := by
  simp only [packageName?, Option.map_eq_some_iff, Option.filter_eq_some_iff, Bool.not_eq_true']
    at h
  obtain ⟨n, ⟨hn, hpackage⟩, hname⟩ := h
  exact ⟨n.reference, ⟨n, hn, hpackage, rfl⟩, hname⟩

/-- No package name comes onto the queue twice. -/
theorem Underway.nodup_enqueued (h : Underway c root pins i met left x) :
    (x.enqueued i).Nodup := by
  obtain ⟨hlt, hqueue⟩ := h.queue_eq
  have hnodes : List.range (i + 1) ++ x.queue = List.range x.graph.size := by
    have hsplit := @List.range'_append_1 0 (i + 1) (x.graph.size - (i + 1))
    rw [Nat.zero_add, Nat.add_sub_cancel' hlt] at hsplit
    rw [hqueue, List.range_eq_range', List.range_eq_range', hsplit]
  rw [enqueued, hnodes]
  refine List.Nodup.filterMap (fun j k name hj hk => ?_) List.nodup_range
  obtain ⟨r, hr, hrname⟩ := exists_isPackage_of_packageName? hj
  obtain ⟨s, hs, hsname⟩ := exists_isPackage_of_packageName? hk
  exact h.namesUnique j k r s hr hs (hrname.trans hsname.symm)

/-- An expansion steps from state to state until it ends, the nodes come off the queue in the order
of their indexes, and in no state has a package name been enqueued twice. -/
structure EnqueuesOnce (c : Catalog) (root : RootSpec) (pins : List Pin) : Prop where
  ends : Ends c root pins (c.expand root pins)
  inOrder : ∀ i met left x, Underway c root pins i met left x →
    ∀ j rest, x.queue = j :: rest → j = i + 1
  nodup : ∀ i met left x, Underway c root pins i met left x → (x.enqueued i).Nodup

private theorem enqueuesOnce (c : Catalog) (root : RootSpec) (pins : List Pin) :
    EnqueuesOnce c root pins where
  ends := ends_of_expand c root pins
  inOrder := by
    intro i met left x h j rest hqueue
    exact h.head_queue hqueue
  nodup := by
    intro i met left x h
    exact h.nodup_enqueued

end Expansion

namespace Catalog

open Expansion

variable {c : Catalog} {root : RootSpec} {pins old new : List Pin}

/-- The pins of the expansions that are made, one after the other, until one of them is not
restarted, and what that one ends with. -/
inductive Attempts (c : Catalog) (root : RootSpec) :
    List (List Pin) → Except GraphError Expansion → Prop
  | settled {pins : List Pin} {x : Expansion} (h : c.expand root pins = .ok x) :
      Attempts c root [pins] (.ok x)
  | failed {pins : List Pin} {e : GraphError} (h : c.expand root pins = .error (.failed e)) :
      Attempts c root [pins] (.error e)
  | restarted {old new : List Pin} {later : List (List Pin)} {result : Except GraphError Expansion}
      (h : c.expand root old = .error (.restart new)) (hlater : Attempts c root (new :: later) result) :
      Attempts c root (old :: new :: later) result

private theorem exists_attempts (c : Catalog) (root : RootSpec) (pins : List Pin) :
    ∃ later, Attempts c root (pins :: later) (c.expandFrom root pins) := by
  fun_induction expandFrom c root pins with
  | case1 pins x hexpand => exact ⟨[], .settled hexpand⟩
  | case2 pins e hexpand => exact ⟨[], .failed hexpand⟩
  | case3 pins next hexpand ih =>
    obtain ⟨later, hlater⟩ := ih
    exact ⟨next :: later, .restarted hexpand hlater⟩

/-- A restart keeps all pins and adds one, for an override name that has had none. -/
theorem exists_pin_of_restart (h : c.expand root old = .error (.restart new))
    (hnodup : (old.map (·.name)).Nodup) (hsubset : ∀ pin ∈ old, pin.name ∈ c.overrideNames root) :
    (new.map (·.name)).Nodup ∧ (∀ pin ∈ new, pin.name ∈ c.overrideNames root) ∧
      old.length < new.length := by
  obtain ⟨i, met, req, left, z, n, hunderway, -, hmeet⟩ := underway_of_restart h
  obtain ⟨hoverride, hfree, -, rfl⟩ := restart_of_meet hmeet
  have hnew : z.pins ++ [⟨req.name, req.constraint, n.reference⟩] =
      pinsAfter n.reference z.pins req := by
    simp [pinsAfter, hoverride, isPinned_eq_false_of_pin? hfree]
  refine ⟨hnew ▸ nodup_pinsAfter (hunderway.nodup_pins hnodup), fun pin hpin => ?_, ?_⟩
  · rcases List.mem_append.mp hpin with hpin | hpin
    · exact hunderway.pins_subset hsubset pin hpin
    · rw [List.mem_singleton.mp hpin]
      exact hunderway.mem_overrideNames hoverride
  · have hle := hunderway.pins_prefix.length_le
    rw [List.length_append, List.length_singleton]
    omega

/-- Each name that some override is for allows one restart. -/
theorem Attempts.length_add_le {attempts : List (List Pin)} {result : Except GraphError Expansion}
    (h : Attempts c root (pins :: attempts) result) (hnodup : (pins.map (·.name)).Nodup)
    (hsubset : ∀ pin ∈ pins, pin.name ∈ c.overrideNames root) :
    attempts.length + pins.length ≤ (c.overrideNames root).dedup.length := by
  have hpins (pins : List Pin) (hnodup : (pins.map (·.name)).Nodup)
      (hsubset : ∀ pin ∈ pins, pin.name ∈ c.overrideNames root) :
      pins.length ≤ (c.overrideNames root).dedup.length := by
    have hnames : pins.map (·.name) ⊆ (c.overrideNames root).dedup := by
      intro name hname
      obtain ⟨pin, hpin, rfl⟩ := List.mem_map.mp hname
      exact List.mem_dedup.mpr (hsubset pin hpin)
    have hle := (hnodup.subperm hnames).length_le
    rwa [List.length_map] at hle
  generalize hall : pins :: attempts = all at h
  induction h generalizing pins attempts with
  | settled _ =>
    obtain ⟨rfl, rfl⟩ := List.cons.inj hall
    simpa using hpins pins hnodup hsubset
  | failed _ =>
    obtain ⟨rfl, rfl⟩ := List.cons.inj hall
    simpa using hpins pins hnodup hsubset
  | restarted hrestart hlater ih =>
    obtain ⟨rfl, rfl⟩ := List.cons.inj hall
    obtain ⟨hnodup', hsubset', hlonger⟩ := exists_pin_of_restart hrestart hnodup hsubset
    have hle := ih hnodup' hsubset' rfl
    rw [List.length_cons]
    omega

/-- A graph is built, or refused, after at most one expansion more than there are names that some
override is for, and none of these expansions enqueues a package name twice. -/
theorem exists_attempts_of_build (c : Catalog) (root : RootSpec) :
    ∃ restarts result, Attempts c root ([] :: restarts) result ∧
      restarts.length ≤ (c.overrideNames root).dedup.length ∧
      (∀ pins ∈ [] :: restarts, EnqueuesOnce c root pins) ∧
      c.build root = (do
        let x ← result
        let _ ← x.graph.layers
        return x.graph) := by
  obtain ⟨restarts, hattempts⟩ := exists_attempts c root []
  have hle := hattempts.length_add_le List.nodup_nil (by simp)
  exact ⟨restarts, c.expandFrom root [], hattempts, hle, fun pins _ => enqueuesOnce c root pins, rfl⟩

end Catalog

end Provision
