import Provision.Proofs.Graph.Search
import Provision.Proofs.VersionLookup

/-!
The equations of expansions. A run takes one node off the queue after the other, a build repeats
expansions, and the layers that a build asks for are always found. Runs and builds recurse on
measures, and a catalog sorts its versions, which is no way to compute a graph: over an index, whose
versions stand in order, and within a bound on the nodes and one on the restarts, they recurse on
those numbers, and give the same answer if they give one.
-/

namespace Provision

/-- The version and recipe that a requirement brings in from an index. -/
def RecipeIndex.choose (index : RecipeIndex) (name : PackageName) (constraint : Constraint)
    (requester : Reference) : Except GraphError (Version × Recipe) :=
  let available := index.available name
  match available.reverse.find? constraint.isSatisfied with
  | some v =>
    match index.recipe? ⟨name, v⟩ with
    | some recipe => .ok (v, recipe)
    | none => .error (.notFound (Reference.text ⟨name, v⟩) requester)
  | none =>
    .error <|
      if available.isEmpty then .notFound name.text requester
      else .unsolvable name constraint requester available

private theorem Catalog.choose_ofIndex (index : RecipeIndex) :
    (Catalog.ofIndex index).choose = index.choose := by
  funext name constraint requester
  rw [choose, chooseVersion, available_ofIndex, RecipeIndex.choose]
  dsimp only [bind, Except.bind]
  cases hfound : (index.available name).reverse.find? constraint.isSatisfied with
  | none => by_cases hempty : (index.available name).isEmpty <;> simp [hempty]
  | some v =>
    have hlisted : (index.available name).isEmpty = false :=
      List.isEmpty_eq_false_iff_exists_mem.mpr
        ⟨v, List.mem_reverse.mp (List.mem_of_find?_eq_some hfound)⟩
    rw [if_neg (by simp [hlisted])]
    rfl

namespace Expansion

variable {c : Catalog} {index : RecipeIndex} {root : RootSpec} {pins : List Pin} {x : Expansion}
  {i j : Nat} {met left : List Requirement}

theorem run_of_nil (hqueue : x.queue = []) : x.run c root = .ok x := by
  unfold run
  split
  · rfl
  · rename_i hcons
    rw [hqueue] at hcons
    cases hcons

theorem run_of_cons {rest : List Nat} {n : Node} (hqueue : x.queue = j :: rest)
    (hnode : x.graph.nodes[j]? = some n) :
    x.run c root =
      (requirementsOf root n).foldlM (meet c j n.reference) { x with queue := rest } >>=
        run c root := by
  conv => lhs; unfold run
  split
  · rename_i hnil
    rw [hqueue] at hnil
    cases hnil
  · rename_i current rest' hcons
    obtain ⟨rfl, rfl⟩ := List.cons.inj (hqueue.symm.trans hcons)
    split
    · rename_i hnone
      rw [hnode] at hnone
      cases hnone
    · rename_i n' hsome
      obtain rfl := Option.some.inj (hnode.symm.trans hsome)
      split
      · rename_i hmeet
        rw [hmeet]
        rfl
      · rename_i hmeet
        rw [hmeet]
        rfl

def meetFrom (index : RecipeIndex) (current : Nat) (requester : Reference) (x : Expansion)
    (req : Requirement) : Except Interruption Expansion :=
  if req.isOverride then x.registerPin requester req
  else
    let constraint := (x.pin? req.name).elim req.constraint (·.constraint)
    match x.choice? req.name with
    | some chosen => x.joinChoice current requester req constraint chosen
    | none =>
      match index.choose req.name constraint requester with
      | .ok (version, recipe) => .ok (x.addChoice current requester req constraint version recipe)
      | .error e => .error (.failed e)

private theorem meet_ofIndex (index : RecipeIndex) (current : Nat) (requester : Reference) :
    meet (.ofIndex index) current requester = meetFrom index current requester := by
  funext x req
  unfold meet
  rw [Catalog.choose_ofIndex]
  rfl

/-- A run over an index that takes a bounded number of nodes off the queue. -/
def runWithin (index : RecipeIndex) (root : RootSpec) :
    Nat → Expansion → Option (Except Interruption Expansion)
  | 0, _ => none
  | bound + 1, x =>
    match x.queue with
    | [] => some (.ok x)
    | j :: rest =>
      match x.graph.nodes[j]? with
      | none => none
      | some n =>
        match (requirementsOf root n).foldlM (meetFrom index j n.reference)
          { x with queue := rest } with
        | .ok y => runWithin index root bound y
        | .error e => some (.error e)

private theorem run_eq_of_runWithin {bound : Nat} {result : Except Interruption Expansion}
    (h : runWithin index root bound x = some result) : x.run (.ofIndex index) root = result := by
  induction bound generalizing x with
  | zero => cases h
  | succ bound ih =>
    rw [runWithin] at h
    split at h
    · rename_i hqueue
      rw [run_of_nil hqueue]
      exact Option.some.inj h
    · rename_i j rest hqueue
      split at h
      · cases h
      · rename_i n hnode
        rw [run_of_cons hqueue hnode, meet_ofIndex]
        split at h
        · rename_i y hmeet
          rw [hmeet]
          exact ih h
        · rename_i e hmeet
          rw [hmeet]
          exact Option.some.inj h

theorem Underway.isAcyclic (h : Underway c root pins i met left x) : x.graph.IsAcyclic := by
  induction h with
  | start hstart hnode =>
    obtain ⟨n, -, hgraph, -⟩ := start_spec hstart
    rw [hgraph]
    exact Graph.isAcyclic_ofRoot n
  | meet h hnode hmeet ih =>
    cases hmeet with
    | repeated => exact ih
    | pinned => exact ih
    | joined chosen hplain hchosen hfits hpath =>
      exact ih.addEdge (Graph.not_reaches_of_path? hpath)
    | added => exact ih.addEdge (h.edgesInside.not_reaches_of_lt h.queue_eq.1)
  | next h hqueue hnode ih => exact ih

/-- The layers of a graph are found in every state of an expansion. -/
theorem Underway.exists_layers (h : Underway c root pins i met left x) :
    ∃ layers, x.graph.layers = .ok layers :=
  (Graph.exists_layers_iff h.edgesInside).mpr h.isAcyclic

end Expansion

namespace Catalog

open Expansion

variable {c : Catalog} {index : RecipeIndex} {root : RootSpec} {pins next : List Pin}
  {x : Expansion}

private theorem expandFrom_eq (c : Catalog) (root : RootSpec) (pins : List Pin) :
    c.expandFrom root pins =
    match c.expand root pins with
    | .ok x => .ok x
    | .error (.failed e) => .error e
    | .error (.restart next) => c.expandFrom root next := by
  conv => lhs; rw [expandFrom]
  split
  · rename_i h
    rw [h]
  · rename_i h
    rw [h]
  · rename_i h
    rw [h]

theorem expandFrom_of_ok (h : c.expand root pins = .ok x) : c.expandFrom root pins = .ok x := by
  rw [expandFrom_eq, h]

theorem expandFrom_of_failed {e : GraphError} (h : c.expand root pins = .error (.failed e)) :
    c.expandFrom root pins = .error e := by
  rw [expandFrom_eq, h]

theorem expandFrom_of_restart (h : c.expand root pins = .error (.restart next)) :
    c.expandFrom root pins = c.expandFrom root next := by
  rw [expandFrom_eq, h]

theorem expandFrom_congr (h : c.expand root pins = c.expand root next) :
    c.expandFrom root pins = c.expandFrom root next := by
  rw [expandFrom_eq c root pins, expandFrom_eq c root next, h]

/-- The layers of a graph that an expansion ends with are found, whatever pins it began with. -/
theorem exists_layers_of_expand (h : c.expand root pins = .ok x) :
    ∃ layers, x.graph.layers = .ok layers := by
  obtain ⟨i, met, hunderway, -⟩ := underway_of_expand h
  exact hunderway.exists_layers

/-- The layers that are asked for in a build never fail. -/
theorem build_eq_expandFrom (c : Catalog) (root : RootSpec) :
    c.build root = Expansion.graph <$> c.expandFrom root [] := by
  rw [build]
  cases hexpand : c.expandFrom root [] with
  | error e => rfl
  | ok x =>
    obtain ⟨pins, -, hlast⟩ := restarted_of_expandFrom .none hexpand
    obtain ⟨layers, hlayers⟩ := exists_layers_of_expand hlast
    simp only [bind, Except.bind, hlayers]
    rfl

theorem build_eq_error_iff {e : GraphError} :
    c.build root = .error e ↔ c.expandFrom root [] = .error e := by
  rw [build_eq_expandFrom]
  cases c.expandFrom root [] <;> simp [Functor.map, Except.map]

/-- An expansion from a root whose run takes a bounded number of nodes off the queue. -/
def expandWithin (index : RecipeIndex) (root : RootSpec) (bound : Nat) (pins : List Pin) :
    Option (Except Interruption Expansion) :=
  match start (.ofIndex index) root pins with
  | .ok x => runWithin index root bound x
  | .error e => some (.error (.failed e))

private theorem expand_eq_of_expandWithin {bound : Nat} {result : Except Interruption Expansion}
    (h : expandWithin index root bound pins = some result) :
    (ofIndex index).expand root pins = result := by
  unfold expandWithin at h
  split at h
  · rename_i x hstart
    rw [expand, hstart]
    exact run_eq_of_runWithin h
  · rename_i e hstart
    rw [expand, hstart]
    exact Option.some.inj h

/-- Expansions with a bounded number of restarts among them. -/
def expandFromWithin (index : RecipeIndex) (root : RootSpec) (bound : Nat) :
    Nat → List Pin → Option (Except GraphError Expansion)
  | 0, _ => none
  | restarts + 1, pins =>
    match expandWithin index root bound pins with
    | none => none
    | some (.ok x) => some (.ok x)
    | some (.error (.failed e)) => some (.error e)
    | some (.error (.restart next)) => expandFromWithin index root bound restarts next

private theorem expandFrom_eq_of_within
    {bound restarts : Nat} {result : Except GraphError Expansion}
    (h : expandFromWithin index root bound restarts pins = some result) :
    (ofIndex index).expandFrom root pins = result := by
  induction restarts generalizing pins with
  | zero => cases h
  | succ restarts ih =>
    rw [expandFromWithin] at h
    split at h
    · cases h
    · rename_i x hexpand
      rw [expandFrom_of_ok (expand_eq_of_expandWithin hexpand)]
      exact Option.some.inj h
    · rename_i e hexpand
      rw [expandFrom_of_failed (expand_eq_of_expandWithin hexpand)]
      exact Option.some.inj h
    · rename_i next hexpand
      rw [expandFrom_of_restart (expand_eq_of_expandWithin hexpand)]
      exact ih h

/-- What is seen of a graph that is built within bounds is seen of the graph that is built. -/
theorem exists_build_of_within {bound restarts : Nat} {α : Type} (view : Graph → α) {a : α}
    (h : (expandFromWithin index root bound restarts []).bind (fun result =>
      result.toOption.map fun x => view x.graph) = some a) :
    ∃ g, (ofIndex index).build root = .ok g ∧ view g = a := by
  obtain ⟨result, hresult, hview⟩ := Option.bind_eq_some_iff.mp h
  obtain ⟨x, rfl, hshown⟩ := exists_ok_of_map_toOption hview
  refine ⟨x.graph, ?_, hshown⟩
  rw [build_eq_expandFrom, expandFrom_eq_of_within hresult]
  rfl

end Catalog

end Provision
