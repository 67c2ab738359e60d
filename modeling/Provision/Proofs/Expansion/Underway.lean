import Mathlib.Logic.Relation
import Provision.Expansion.Build
import Provision.Fallible

/-!
Expansions as runs of small steps. A step meets one requirement of the node in hand, and there are
four ways to do so; when all requirements of a node are met, the next node comes off the queue.
What holds at the start and is kept by the steps holds in every expansion, whether it ends well,
is interrupted, or follows restarts.
-/

namespace Provision

namespace Expansion

/-- The constraint that a requirement is met under: that of the pin of its name, if there is
one. -/
def constraintFor (x : Expansion) (req : Requirement) : Constraint :=
  (x.pin? req.name).elim req.constraint (·.constraint)

def edgeFor (x : Expansion) (i : Nat) (req : Requirement) (target : Nat) : Edge :=
  ⟨i, target, x.constraintFor req, req.isTransitive, x.position + 1⟩

/-- The four ways to meet a requirement of the node `i`. -/
inductive Met (c : Catalog) (i : Nat) (requester : Reference) (req : Requirement)
    (x : Expansion) : Expansion → Prop
  | repeated (pin : Pin) (hoverride : req.isOverride = true) (hpin : x.pin? req.name = some pin)
      (hsame : pin.constraint = req.constraint) : Met c i requester req x x
  | pinned (hoverride : req.isOverride = true) (hfree : x.pin? req.name = none)
      (hfits : ∀ chosen, x.choice? req.name = some chosen →
        req.constraint.isSatisfied chosen.version = true) :
      Met c i requester req x
        { x with pins := x.pins ++ [⟨req.name, req.constraint, requester⟩] }
  | joined (chosen : Choice) (hplain : req.isOverride = false)
      (hchosen : x.choice? req.name = some chosen)
      (hfits : (x.constraintFor req).isSatisfied chosen.version = true)
      (hpath : x.graph.path? chosen.node i = none) :
      Met c i requester req x
        { x with
          graph := x.graph.addEdge (x.edgeFor i req chosen.node)
          position := x.position + 1 }
  | added (version : Version) (recipe : Recipe) (hplain : req.isOverride = false)
      (hfree : x.choice? req.name = none)
      (hchoose : c.choose req.name (x.constraintFor req) requester = .ok (version, recipe)) :
      Met c i requester req x
        { graph := (x.graph.addNode (.new ⟨req.name, version⟩ (some recipe))).addEdge
            (x.edgeFor i req x.graph.size)
          choices := x.choices ++
            [⟨req.name, version, x.graph.size, requester, x.constraintFor req⟩]
          pins := x.pins
          queue := x.queue ++ [x.graph.size]
          position := x.position + 1 }

variable {c : Catalog} {root : RootSpec} {pins : List Pin} {x y : Expansion} {i : Nat}
  {requester : Reference} {req : Requirement} {met left : List Requirement}

theorem met_of_meet (h : meet c i requester x req = .ok y) : Met c i requester req x y := by
  simp only [meet] at h
  split at h
  · rename_i hoverride
    simp only [registerPin] at h
    split at h
    · rename_i pin hpin
      split at h
      · cases h
        exact .repeated pin hoverride hpin ‹_›
      · cases h
    · rename_i hfree
      split at h
      · rename_i chosen hchosen
        split at h
        · cases h
          refine .pinned hoverride hfree fun other hother => ?_
          rw [hchosen] at hother
          cases hother
          assumption
        · cases h
      · rename_i hnone
        cases h
        refine .pinned hoverride hfree fun other hother => ?_
        rw [hnone] at hother
        cases hother
  · rename_i hplain
    have hplain : req.isOverride = false := by simpa using hplain
    split at h
    · rename_i chosen hchosen
      simp only [joinChoice] at h
      split at h
      · cases h
      · rename_i hfits
        split at h
        · cases h
        · rename_i hpath
          cases h
          exact .joined chosen hplain hchosen (by simpa [constraintFor] using hfits) hpath
    · rename_i hfree
      split at h
      · rename_i version recipe hchoose
        cases h
        exact .added version recipe hplain hfree hchoose
      · cases h

/-- Only an override that what was chosen does not satisfy causes a restart. -/
theorem restart_of_meet {next : List Pin} (h : meet c i requester x req = .error (.restart next)) :
    req.isOverride = true ∧ x.pin? req.name = none ∧
      (∃ chosen, x.choice? req.name = some chosen ∧
        req.constraint.isSatisfied chosen.version = false) ∧
      next = x.pins ++ [⟨req.name, req.constraint, requester⟩] := by
  simp only [meet] at h
  split at h
  · rename_i hoverride
    simp only [registerPin] at h
    split at h
    · split at h <;> cases h
    · rename_i hfree
      split at h
      · rename_i chosen hchosen
        split at h
        · cases h
        · rename_i hfits
          cases h
          exact ⟨hoverride, hfree, ⟨chosen, hchosen, by simpa using hfits⟩, rfl⟩
      · cases h
  · split at h
    · simp only [joinChoice] at h
      split at h
      · cases h
      · split at h <;> cases h
    · split at h <;> cases h

theorem Met.getElem?_nodes (h : Met c i requester req x y) {j : Nat} {n : Node}
    (hn : x.graph.nodes[j]? = some n) : y.graph.nodes[j]? = some n := by
  cases h with
  | repeated => exact hn
  | pinned => exact hn
  | joined => exact hn
  | added =>
    have hj := (List.getElem?_eq_some_iff.mp hn).1
    simp only [Graph.addEdge, Graph.addNode]
    rw [List.getElem?_append_left hj, hn]

/-- The states of an expansion: the node in hand, its requirements that are met, and those that
are left. The node in hand is not on the queue. -/
inductive Underway (c : Catalog) (root : RootSpec) (pins : List Pin) :
    Nat → List Requirement → List Requirement → Expansion → Prop
  | start {x : Expansion} {n : Node} (hstart : Expansion.start c root pins = .ok x)
      (hnode : x.graph.nodes[0]? = some n) :
      Underway c root pins 0 [] (requirementsOf root n) { x with queue := [] }
  | meet {i : Nat} {met left : List Requirement} {req : Requirement} {x y : Expansion} {n : Node}
      (h : Underway c root pins i met (req :: left) x) (hnode : x.graph.nodes[i]? = some n)
      (hmeet : Met c i n.reference req x y) : Underway c root pins i (met ++ [req]) left y
  | next {i j : Nat} {met : List Requirement} {rest : List Nat} {x : Expansion} {n : Node}
      (h : Underway c root pins i met [] x) (hqueue : x.queue = j :: rest)
      (hnode : x.graph.nodes[j]? = some n) :
      Underway c root pins j [] (requirementsOf root n) { x with queue := rest }

/-- How the node of an index comes into a graph: as the root, or with the recipe of its
reference. -/
inductive Entered (c : Catalog) : RootSpec → Nat → Node → Prop
  | consumer (requirements : List Requirement) :
      Entered c (.consumer requirements) 0 (.new consumerReference none)
  | package {r : Reference} {recipe : Recipe} (hrecipe : c.recipe? r = some recipe) :
      Entered c (.package r) 0 (.new recipe.reference (some recipe))
  | dependency {root : RootSpec} {i : Nat} {r : Reference} {recipe : Recipe} (hi : 0 < i)
      (hrecipe : c.recipe? r = some recipe) : Entered c root i (.new r (some recipe))

theorem Entered.eq_new {i : Nat} {n : Node} (h : Entered c root i n) :
    n = .new n.reference n.recipe? := by
  cases h <;> rfl

/-- An expansion at its start, or after all requirements of a node have been met. -/
def Paused (c : Catalog) (root : RootSpec) (pins : List Pin) (x : Expansion) : Prop :=
  start c root pins = .ok x ∨ ∃ i met, Underway c root pins i met [] x

/-- How an expansion starts: with a consumer, or with a package that is chosen for its name. -/
inductive Started (c : Catalog) (pins : List Pin) : RootSpec → Expansion → Prop
  | consumer (requirements : List Requirement) :
      Started c pins (.consumer requirements)
        ⟨.ofRoot (.new consumerReference none), [], pins, [0], 0⟩
  | package {r : Reference} {recipe : Recipe} (hrecipe : c.recipe? r = some recipe) :
      Started c pins (.package r)
        ⟨.ofRoot (.new recipe.reference (some recipe)), [⟨recipe.reference.name,
          recipe.reference.version, 0, consumerReference, .exact recipe.reference.version⟩],
          pins, [0], 0⟩

theorem started_of_start (h : start c root pins = .ok x) : Started c pins root x := by
  simp only [start] at h
  split at h
  · cases h
    exact .consumer _
  · split at h
    · cases h
    · rename_i hrecipe
      cases h
      exact .package hrecipe

theorem start_spec (h : start c root pins = .ok x) :
    ∃ n, Entered c root 0 n ∧ x.graph = .ofRoot n ∧ x.queue = [0] ∧ x.pins = pins ∧
      x.position = 0 := by
  cases started_of_start h with
  | consumer requirements => exact ⟨_, .consumer requirements, rfl, rfl, rfl, rfl⟩
  | package hrecipe => exact ⟨_, .package hrecipe, rfl, rfl, rfl, rfl⟩

/-- What holds of a root alone, and stays when a requirement brings in an edge or a node, holds of
the graph of every expansion under way. -/
theorem Underway.induction_graph {P : Graph → Prop}
    (hroot : ∀ n, Entered c root 0 n → P (.ofRoot n))
    (hjoined : ∀ {i met left req x chosen}, Underway c root pins i met (req :: left) x →
      x.choice? req.name = some chosen → P x.graph →
        P (x.graph.addEdge (x.edgeFor i req chosen.node)))
    (hadded : ∀ {i met left req x requester version recipe},
      Underway c root pins i met (req :: left) x → x.choice? req.name = none →
        c.choose req.name (x.constraintFor req) requester = .ok (version, recipe) → P x.graph →
          P ((x.graph.addNode (.new ⟨req.name, version⟩ (some recipe))).addEdge
            (x.edgeFor i req x.graph.size)))
    (h : Underway c root pins i met left x) : P x.graph := by
  induction h with
  | start hstart hnode =>
    obtain ⟨n, hn, hgraph, -⟩ := start_spec hstart
    rw [hgraph]
    exact hroot n hn
  | meet h hnode hmeet ih =>
    cases hmeet with
    | repeated => exact ih
    | pinned => exact ih
    | joined chosen hplain hchosen => exact hjoined h hchosen ih
    | added version recipe hplain hfree hchoose => exact hadded h hfree hchoose ih
  | next h hqueue hnode ih => exact ih

/-- The queue holds the nodes after the one in hand, in order. -/
theorem Underway.queue_eq (h : Underway c root pins i met left x) :
    i < x.graph.size ∧ x.queue = List.range' (i + 1) (x.graph.size - (i + 1)) := by
  induction h with
  | start hstart hnode =>
    obtain ⟨n, -, hgraph, -⟩ := start_spec hstart
    simp [hgraph, Graph.size, Graph.ofRoot]
  | meet h hnode hmeet ih =>
    cases hmeet with
    | repeated => exact ih
    | pinned => exact ih
    | joined => exact ih
    | added =>
      obtain ⟨hlt, hqueue⟩ := ih
      simp only [Graph.size, Graph.addEdge, Graph.addNode, List.length_append,
        List.length_singleton] at hlt hqueue ⊢
      refine ⟨by omega, ?_⟩
      rw [hqueue, Nat.sub_add_comm (by omega), List.range'_concat]
      congr
      omega
  | @next i j met rest x n h hqueue hnode ih =>
    obtain ⟨hlt, hrange⟩ := ih
    rw [hqueue] at hrange
    cases hcount : x.graph.size - (i + 1) with
    | zero =>
      rw [hcount] at hrange
      cases hrange
    | succ count =>
      rw [hcount, List.range'_succ] at hrange
      obtain ⟨rfl, rfl⟩ := List.cons.inj hrange
      have hnext : x.graph.size - (i + 1 + 1) = count := by omega
      have hlt' : i + 1 < x.graph.size := by omega
      exact ⟨hlt', hnext ▸ rfl⟩

theorem Underway.head_queue (h : Underway c root pins i met left x) {j : Nat} {rest : List Nat}
    (hqueue : x.queue = j :: rest) : j = i + 1 := by
  obtain ⟨hlt, hrange⟩ := h.queue_eq
  rw [hqueue] at hrange
  cases hcount : x.graph.size - (i + 1) with
  | zero =>
    rw [hcount] at hrange
    cases hrange
  | succ count =>
    rw [hcount, List.range'_succ] at hrange
    exact (List.cons.inj hrange).1

theorem Underway.exists_node (h : Underway c root pins i met left x) :
    ∃ n, x.graph.nodes[i]? = some n ∧ requirementsOf root n = met ++ left := by
  induction h with
  | start hstart hnode => exact ⟨_, hnode, rfl⟩
  | meet h hnode hmeet ih =>
    obtain ⟨n, hn, hreqs⟩ := ih
    exact ⟨n, hmeet.getElem?_nodes hn, by simp [hreqs]⟩
  | next h hqueue hnode ih => exact ⟨_, hnode, rfl⟩

theorem Paused.pop (h : Paused c root pins x) {j : Nat} {rest : List Nat}
    (hqueue : x.queue = j :: rest) :
    ∃ n, x.graph.nodes[j]? = some n ∧
      Underway c root pins j [] (requirementsOf root n) { x with queue := rest } := by
  rcases h with hstart | ⟨i, met, h⟩
  · obtain ⟨n, -, hgraph, hzero, -⟩ := start_spec hstart
    obtain ⟨rfl, rfl⟩ := List.cons.inj (hzero.symm.trans hqueue)
    have hnode : x.graph.nodes[0]? = some n := by simp [hgraph, Graph.ofRoot]
    exact ⟨n, hnode, .start hstart hnode⟩
  · obtain ⟨hlt, hrange⟩ := h.queue_eq
    have hj : j ∈ List.range' (i + 1) (x.graph.size - (i + 1)) := by
      rw [← hrange, hqueue]
      exact List.mem_cons_self
    rw [List.mem_range'_1] at hj
    have hj : j < x.graph.nodes.length := by
      unfold Graph.size at hj
      omega
    exact ⟨x.graph.nodes[j], List.getElem?_eq_getElem hj,
      .next h hqueue (List.getElem?_eq_getElem hj)⟩

theorem Underway.foldlM_ok {n : Node} (h : Underway c root pins i met left x)
    (hnode : x.graph.nodes[i]? = some n)
    (hrun : left.foldlM (Expansion.meet c i n.reference) x = .ok y) :
    Underway c root pins i (met ++ left) [] y := by
  induction left generalizing met x with
  | nil =>
    cases hrun
    rwa [List.append_nil]
  | cons req left ih =>
    rw [List.foldlM_cons, bind_eq_ok_iff] at hrun
    obtain ⟨z, hmeet, hrest⟩ := hrun
    have hmet := met_of_meet hmeet
    have hnext := ih (.meet h hnode hmet) (hmet.getElem?_nodes hnode) hrest
    rwa [List.append_assoc, List.singleton_append] at hnext

/-- If requirements that are left cannot all be met, the run gets to the one that fails. -/
theorem Underway.foldlM_error {n : Node} {e : Interruption}
    (h : Underway c root pins i met left x) (hnode : x.graph.nodes[i]? = some n)
    (hrun : left.foldlM (Expansion.meet c i n.reference) x = .error e) :
    ∃ met' req left' z, Underway c root pins i met' (req :: left') z ∧
      z.graph.nodes[i]? = some n ∧ Expansion.meet c i n.reference z req = .error e := by
  induction left generalizing met x with
  | nil => cases hrun
  | cons req left ih =>
    rw [List.foldlM_cons, bind_eq_error_iff] at hrun
    rcases hrun with herror | ⟨z, hmeet, hrest⟩
    · exact ⟨met, req, left, x, h, hnode, herror⟩
    · have hmet := met_of_meet hmeet
      exact ih (.meet h hnode hmet) (hmet.getElem?_nodes hnode) hrest

private theorem Paused.run_ok (h : Paused c root pins x) (hrun : x.run c root = .ok y) :
    Paused c root pins y ∧ y.queue = [] := by
  fun_induction run c root x with
  | case1 x hqueue =>
    cases hrun
    exact ⟨h, hqueue⟩
  | case2 x current rest hqueue hnode ih =>
    obtain ⟨n, hn, -⟩ := h.pop hqueue
    rw [hn] at hnode
    cases hnode
  | case3 x current rest hqueue node hnode y' hmeet ih =>
    obtain ⟨n, hn, hstep⟩ := h.pop hqueue
    obtain rfl : node = n := Option.some.inj (hnode.symm.trans hn)
    exact ih (.inr ⟨current, _, hstep.foldlM_ok hn hmeet⟩) hrun
  | case4 x current rest hqueue node hnode e hmeet => cases hrun

theorem Paused.run_error {e : Interruption} (h : Paused c root pins x)
    (hrun : x.run c root = .error e) :
    ∃ i met req left z n, Underway c root pins i met (req :: left) z ∧
      z.graph.nodes[i]? = some n ∧ Expansion.meet c i n.reference z req = .error e := by
  fun_induction run c root x with
  | case1 x hqueue => cases hrun
  | case2 x current rest hqueue hnode ih =>
    obtain ⟨n, hn, -⟩ := h.pop hqueue
    rw [hn] at hnode
    cases hnode
  | case3 x current rest hqueue node hnode y' hmeet ih =>
    obtain ⟨n, hn, hstep⟩ := h.pop hqueue
    obtain rfl : node = n := Option.some.inj (hnode.symm.trans hn)
    exact ih (.inr ⟨current, _, hstep.foldlM_ok hn hmeet⟩) hrun
  | case4 x current rest hqueue node hnode e hmeet =>
    obtain ⟨n, hn, hstep⟩ := h.pop hqueue
    obtain rfl : node = n := Option.some.inj (hnode.symm.trans hn)
    cases hrun
    obtain ⟨met', req, left', z, hz, hzn, herror⟩ := hstep.foldlM_error hn hmeet
    exact ⟨current, met', req, left', z, node, hz, hzn, herror⟩

end Expansion

namespace Catalog

open Expansion

variable {c : Catalog} {root : RootSpec} {pins : List Pin} {x : Expansion}

/-- An expansion that ends well has met all requirements of every node. -/
theorem underway_of_expand (h : c.expand root pins = .ok x) :
    ∃ i met, Underway c root pins i met [] x ∧ i + 1 = x.graph.size := by
  unfold expand at h
  split at h
  · rename_i x₀ hstart
    obtain ⟨hpaused, hqueue⟩ := Paused.run_ok (.inl hstart) h
    rcases hpaused with hstart | ⟨i, met, hunderway⟩
    · obtain ⟨n, -, -, hzero, -⟩ := start_spec hstart
      rw [hzero] at hqueue
      cases hqueue
    · obtain ⟨hlt, hrange⟩ := hunderway.queue_eq
      rw [hqueue] at hrange
      have hsize := congrArg List.length hrange
      simp only [List.length_nil, List.length_range'] at hsize
      exact ⟨i, met, hunderway, by omega⟩
  · cases h

theorem underway_of_restart {next : List Pin} (h : c.expand root pins = .error (.restart next)) :
    ∃ i met req left z n, Underway c root pins i met (req :: left) z ∧
      z.graph.nodes[i]? = some n ∧
      Expansion.meet c i n.reference z req = .error (.restart next) := by
  unfold expand at h
  split at h
  · exact Paused.run_error (.inl ‹_›) h
  · cases h

/-- The pins that restarts can lead to. -/
inductive Restarted (c : Catalog) (root : RootSpec) : List Pin → Prop
  | none : Restarted c root []
  | restart {old new : List Pin} (h : Restarted c root old)
      (hrestart : c.expand root old = .error (.restart new)) : Restarted c root new

theorem restarted_of_expandFrom (hpins : Restarted c root pins)
    (h : c.expandFrom root pins = .ok x) :
    ∃ last, Restarted c root last ∧ c.expand root last = .ok x := by
  fun_induction expandFrom c root pins with
  | case1 pins x' hexpand =>
    cases h
    exact ⟨pins, hpins, hexpand⟩
  | case2 pins e hexpand => cases h
  | case3 pins next hexpand ih => exact ih (.restart hpins hexpand) h

theorem build_eq_ok {g : Graph} (h : c.build root = .ok g) :
    (∃ layers, g.layers = .ok layers) ∧
      ∃ pins i met x, Restarted c root pins ∧ Underway c root pins i met [] x ∧
        i + 1 = x.graph.size ∧ x.graph = g := by
  simp only [build, bind_eq_ok_iff] at h
  obtain ⟨x, hexpand, layers, hlayers, h⟩ := h
  cases h
  obtain ⟨pins, hpins, hlast⟩ := restarted_of_expandFrom .none hexpand
  obtain ⟨i, met, hunderway, hsize⟩ := underway_of_expand hlast
  exact ⟨⟨layers, hlayers⟩, pins, i, met, x, hpins, hunderway, hsize, rfl⟩

end Catalog

end Provision
