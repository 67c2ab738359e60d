import Provision.Proofs.Expansion.Evaluation
import Provision.Proofs.Expansion.Pins
import Provision.Proofs.Graph.Arrows

/-!
Two expansions that have made the same choices go on in the same way, also when they have made them
under different constraints or for different roots: the root matters to the first node only, and
what is chosen next depends on the pins and on the versions that stand, not on what brought them in.
-/

namespace Provision

/-- What is chosen, apart from the requirement that it was chosen for. -/
def Choice.taken (chosen : Choice) : PackageName × Version × Nat :=
  (chosen.name, chosen.version, chosen.node)

namespace Expansion

/-- Two expansions with the same nodes and arrows, which have taken the same versions. -/
structure Alike (x z : Expansion) : Prop where
  graph : x.graph.SameArrows z.graph
  taken_eq : x.choices.map (·.taken) = z.choices.map (·.taken)
  queue_eq : x.queue = z.queue

variable {c : Catalog} {root : RootSpec} {pins : List Pin} {x y z : Expansion} {i j : Nat}
  {requester : Reference} {req : Requirement} {met left : List Requirement} {name : PackageName}
  {chosen : Choice}

section Meeting

theorem meet_of_override (hoverride : req.isOverride = true) :
    meet c i requester x req = x.registerPin requester req := by
  rw [meet, if_pos hoverride]

theorem meet_of_chosen (hplain : req.isOverride = false)
    (hchosen : x.choice? req.name = some chosen) :
    meet c i requester x req = x.joinChoice i requester req (x.constraintFor req) chosen := by
  simp [meet, hplain, hchosen, constraintFor]

theorem meet_of_found {version : Version} {recipe : Recipe} (hplain : req.isOverride = false)
    (hfree : x.choice? req.name = none)
    (hchoose : c.choose req.name (x.constraintFor req) requester = .ok (version, recipe)) :
    meet c i requester x req =
      .ok (x.addChoice i requester req (x.constraintFor req) version recipe) := by
  unfold constraintFor at hchoose ⊢
  simp [meet, hplain, hfree, hchoose]

private theorem meet_of_missing {e : GraphError} (hplain : req.isOverride = false)
    (hfree : x.choice? req.name = none)
    (hchoose : c.choose req.name (x.constraintFor req) requester = .error e) :
    meet c i requester x req = .error (.failed e) := by
  unfold constraintFor at hchoose
  simp [meet, hplain, hfree, hchoose]

end Meeting

namespace Alike

private theorem choice?_eq (h : Alike x z) (name : PackageName) :
    (x.choice? name).map (·.taken) = (z.choice? name).map (·.taken) := by
  have hfind (x : Expansion) : (x.choice? name).map (·.taken) =
      (x.choices.map (·.taken)).find? (·.1 == name) := by
    rw [List.find?_map]
    rfl
  rw [hfind x, hfind z, h.taken_eq]

theorem choice?_eq_none (h : Alike x z) (hfree : x.choice? name = none) :
    z.choice? name = none := by
  have htaken := h.choice?_eq name
  rw [hfree] at htaken
  exact Option.map_eq_none_iff.mp htaken.symm

theorem exists_choice? (h : Alike x z) (hchosen : x.choice? name = some chosen) :
    ∃ other, z.choice? name = some other ∧ other.version = chosen.version ∧
      other.node = chosen.node := by
  have htaken := h.choice?_eq name
  rw [hchosen] at htaken
  obtain ⟨other, hother, hsame⟩ := Option.map_eq_some_iff.mp htaken.symm
  simp only [Choice.taken, Prod.mk.injEq] at hsame
  exact ⟨other, hother, hsame.2.1, hsame.2.2⟩

private theorem withQueue (h : Alike x z) (rest : List Nat) :
    Alike { x with queue := rest } { z with queue := rest } :=
  ⟨h.graph, h.taken_eq, rfl⟩

theorem addEdge (h : Alike x z) {e e' : Edge} (hsource : e.source = e'.source)
    (htarget : e.target = e'.target) (p p' : Nat) :
    Alike { x with graph := x.graph.addEdge e, position := p }
      { z with graph := z.graph.addEdge e', position := p' } :=
  ⟨h.graph.addEdge hsource htarget, h.taken_eq, h.queue_eq⟩

/-- A package that both bring in is the same node of both. -/
theorem addChoice (h : Alike x z) (constraint constraint' : Constraint) (version : Version)
    (recipe : Recipe) :
    Alike (x.addChoice i requester req constraint version recipe)
      (z.addChoice i requester req constraint' version recipe) := by
  have hsize := h.graph.size_eq
  refine ⟨(h.graph.addNode _).addEdge rfl hsize, ?_, ?_⟩
  · rw [Expansion.addChoice, Expansion.addChoice, List.map_append, List.map_append, h.taken_eq, hsize]
    rfl
  · simp only [Expansion.addChoice, h.queue_eq, hsize]

end Alike

/-- How two computations end alike: in expansions that go on alike, in the same restart, or both in
failure. -/
inductive Parallel : Except Interruption Expansion → Except Interruption Expansion → Prop
  | ok {x z : Expansion} (h : Alike x z) (hpins : x.pins = z.pins) : Parallel (.ok x) (.ok z)
  | restart (pins : List Pin) : Parallel (.error (.restart pins)) (.error (.restart pins))
  | failed (e e' : GraphError) : Parallel (.error (.failed e)) (.error (.failed e'))

private theorem Parallel.bind {r s : Except Interruption Expansion}
    {f g : Expansion → Except Interruption Expansion} (h : Parallel r s)
    (hfg : ∀ x z, Alike x z → x.pins = z.pins → Parallel (f x) (g z)) :
    Parallel (r >>= f) (s >>= g) := by
  cases h with
  | ok h hpins => exact hfg _ _ h hpins
  | restart pins => exact .restart pins
  | failed e e' => exact .failed e e'

theorem Parallel.exists_ok {s : Except Interruption Expansion} (h : Parallel (.ok x) s) :
    ∃ z, s = .ok z ∧ Alike x z ∧ x.pins = z.pins := by
  cases h with
  | ok h hpins => exact ⟨_, rfl, h, hpins⟩

theorem Parallel.eq_restart {s : Except Interruption Expansion}
    (h : Parallel (.error (.restart pins)) s) : s = .error (.restart pins) := by
  cases h with
  | restart => rfl

theorem Parallel.exists_failed {e : GraphError} {s : Except Interruption Expansion}
    (h : Parallel (.error (.failed e)) s) : ∃ e', s = .error (.failed e') := by
  cases h with
  | failed e e' => exact ⟨e', rfl⟩

private theorem Parallel.bind_of_error {e : Interruption} {s : Except Interruption Expansion}
    {g : Expansion → Except Interruption Expansion} (h : Parallel (.error e) s) :
    Parallel (.error e) (s >>= g) := by
  cases h with
  | restart pins => exact .restart pins
  | failed e e' => exact .failed e e'

private theorem parallel_registerPin (h : Alike x z) (hpins : x.pins = z.pins) :
    Parallel (x.registerPin requester req) (z.registerPin requester req) := by
  have hpin : z.pin? req.name = x.pin? req.name := by rw [pin?, pin?, hpins]
  unfold registerPin
  rw [hpin, ← hpins]
  cases x.pin? req.name with
  | some pin =>
    dsimp only
    split
    · exact .ok h hpins
    · exact .failed _ _
  | none =>
    cases hchosen : x.choice? req.name with
    | none =>
      rw [h.choice?_eq_none hchosen]
      exact .ok ⟨h.graph, h.taken_eq, h.queue_eq⟩ rfl
    | some chosen =>
      obtain ⟨other, hother, hversion, -⟩ := h.exists_choice? hchosen
      rw [hother]
      dsimp only
      rw [hversion]
      split
      · exact .ok ⟨h.graph, h.taken_eq, h.queue_eq⟩ rfl
      · exact .restart _

private theorem parallel_meet (h : Alike x z) (hpins : x.pins = z.pins) :
    Parallel (meet c i requester x req) (meet c i requester z req) := by
  have hconstraint : z.constraintFor req = x.constraintFor req := by
    rw [constraintFor, constraintFor, pin?, pin?, hpins]
  cases hkind : req.isOverride with
  | true =>
    rw [meet_of_override hkind, meet_of_override hkind]
    exact parallel_registerPin h hpins
  | false =>
    cases hchosen : x.choice? req.name with
    | some chosen =>
      obtain ⟨other, hother, hversion, hnode⟩ := h.exists_choice? hchosen
      rw [meet_of_chosen hkind hchosen, meet_of_chosen hkind hother, hconstraint]
      simp only [joinChoice, hversion, hnode, ← h.graph.path?_eq]
      split
      · exact .failed _ _
      · split
        · exact .failed _ _
        · exact .ok (h.addEdge (by rfl) (by rfl) _ _) hpins
    | none =>
      have hother := h.choice?_eq_none hchosen
      cases hchoose : c.choose req.name (x.constraintFor req) requester with
      | ok found =>
        rw [meet_of_found hkind hchosen hchoose, meet_of_found hkind hother (hconstraint ▸ hchoose)]
        exact .ok (h.addChoice _ _ _ _) hpins
      | error e =>
        rw [meet_of_missing hkind hchosen hchoose,
          meet_of_missing hkind hother (hconstraint ▸ hchoose)]
        exact .failed e e

private theorem parallel_meetAll (c : Catalog) (i : Nat) (requester : Reference)
    (requirements : List Requirement) (h : Alike x z) (hpins : x.pins = z.pins) :
    Parallel (requirements.foldlM (meet c i requester) x)
      (requirements.foldlM (meet c i requester) z) := by
  induction requirements generalizing x z with
  | nil => exact .ok h hpins
  | cons req requirements ih =>
    rw [List.foldlM_cons, List.foldlM_cons]
    exact (parallel_meet h hpins).bind fun _ _ halike hsame => ih halike hsame

/-- No node but the first takes its requirements from the root. -/
theorem Underway.requirementsOf_eq (h : Underway c root pins i met left x) {n : Node} (hj : 0 < j)
    (hnode : x.graph.nodes[j]? = some n) (root' : RootSpec) :
    requirementsOf root n = requirementsOf root' n := by
  cases h.entered j n hnode with
  | consumer => cases hj
  | package => rfl
  | dependency => rfl

/-- What is next in hand is the same node of expansions that are alike. -/
theorem Alike.run_eq (h : Alike x z) (hunderway : Underway c root pins i met [] x) {rest : List Nat}
    {n : Node} (hqueue : x.queue = j :: rest) (hnode : x.graph.nodes[j]? = some n)
    (root' : RootSpec) :
    z.run c root' = (requirementsOf root n).foldlM (meet c j n.reference) { z with queue := rest } >>=
      run c root' := by
  have hj : 0 < j := by
    have := hunderway.head_queue hqueue
    omega
  rw [hunderway.requirementsOf_eq hj hnode root']
  exact run_of_cons (h.queue_eq ▸ hqueue) (h.graph.nodes_eq ▸ hnode)

/-- When the requirements of the first node are met, expansions that are alike stay alike. -/
theorem parallel_run {root' : RootSpec} (hunderway : Underway c root pins i met [] x)
    (h : Alike x z) (hpins : x.pins = z.pins) : Parallel (x.run c root) (z.run c root') := by
  fun_induction run c root x generalizing i met z with
  | case1 x hqueue =>
    rw [run_of_nil (h.queue_eq ▸ hqueue)]
    exact .ok h hpins
  | case2 x current rest hqueue hnode ih =>
    obtain ⟨n, hn, -⟩ := Paused.pop (.inr ⟨i, met, hunderway⟩) hqueue
    rw [hn] at hnode
    cases hnode
  | case3 x current rest hqueue node hnode y hmeet ih =>
    have hnext := (Underway.next hunderway hqueue hnode).foldlM_ok hnode hmeet
    have hstep := parallel_meetAll c current node.reference (requirementsOf root node)
      (h.withQueue rest) hpins
    rw [hmeet] at hstep
    rw [h.run_eq hunderway hqueue hnode root']
    obtain ⟨w, hw, halike, hsame⟩ := hstep.exists_ok
    rw [hw]
    exact ih hnext halike hsame
  | case4 x current rest hqueue node hnode e hmeet =>
    have hstep := parallel_meetAll c current node.reference (requirementsOf root node)
      (h.withQueue rest) hpins
    rw [hmeet] at hstep
    rw [h.run_eq hunderway hqueue hnode root']
    exact hstep.bind_of_error

end Expansion

end Provision
