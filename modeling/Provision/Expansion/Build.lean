import Provision.Expansion.Measure

/-!
Building a dependency graph: expansions are repeated until one of them is not interrupted by a
restart, and the graph of that one is the result, once its layers confirm that it has no cycle.
-/

namespace Provision

namespace Expansion

/-- Meet the requirements of the nodes on the queue until none is left. -/
def run (c : Catalog) (root : RootSpec) (x : Expansion) : Except Interruption Expansion :=
  match _hqueue : x.queue with
  | [] => .ok x
  | current :: rest =>
    match x.graph.nodes[current]? with
    | none => run c root { x with queue := rest }
    | some node =>
      match _hmeet : (requirementsOf root node).foldlM (meet c current node.reference)
          { x with queue := rest } with
      | .ok y => run c root y
      | .error e => .error e
termination_by x.remaining c
decreasing_by
  · simp [remaining, unchosen, _hqueue]
  · have := remaining_meetAll_le _hmeet
    simp only [remaining, unchosen, _hqueue, List.length_cons] at this ⊢
    omega

/-- The expansion that starts at a root: the root's node is the only one, and on the queue. -/
def start (c : Catalog) (root : RootSpec) (pins : List Pin) : Except GraphError Expansion :=
  match root with
  | .consumer _ => .ok ⟨.ofRoot (.new consumerReference none), [], pins, [0], 0⟩
  | .package reference =>
    match c.recipe? reference with
    | none => .error (.notFound reference.text consumerReference)
    | some recipe =>
      let r := recipe.reference
      .ok ⟨.ofRoot (.new r (some recipe)), [⟨r.name, r.version, 0, consumerReference,
        .exact r.version⟩], pins, [0], 0⟩

end Expansion

def Catalog.expand (c : Catalog) (root : RootSpec) (pins : List Pin) :
    Except Interruption Expansion :=
  match Expansion.start c root pins with
  | .ok x => x.run c root
  | .error e => .error (.failed e)

namespace Expansion

variable {c : Catalog} {root : RootSpec} {x : Expansion} {pins : List Pin}

private theorem pinsOneMore_run (hx : x.FromCatalog c) (h : x.run c root = .error (.restart pins)) :
    PinsOneMore c root x.pins pins := by
  fun_induction run c root x with
  | case1 => simp at h
  | case2 x current rest hqueue hnode ih => exact ih hx h
  | case3 x current rest hqueue node hnode y hmeet ih =>
    have hx : FromCatalog c { x with queue := rest } := hx
    exact pinsOneMore_of_le (fun _ hname => isPinned_meetAll hmeet hname)
      (ih (fromCatalog_meetAll hx hmeet) h)
  | case4 x current rest hqueue node hnode e hmeet =>
    cases h
    exact pinsOneMore_meetAll (x := { x with queue := rest })
      (requirementsOf_subset root (hx node (List.mem_of_getElem? hnode))) hmeet

private theorem start_eq_ok (h : start c root pins = .ok x) : x.FromCatalog c ∧ x.pins = pins := by
  simp only [start] at h
  split at h
  · cases h
    exact ⟨by simp [FromCatalog, Graph.ofRoot, Node.new], rfl⟩
  · split at h
    · simp at h
    · rename_i recipe hrecipe
      cases h
      refine ⟨fun n hn recipe' hrecipe' => ?_, rfl⟩
      simp only [Graph.ofRoot, List.mem_singleton] at hn
      subst hn
      cases hrecipe'
      exact Catalog.mem_recipes_of_recipe? hrecipe

end Expansion

/-- A restart leaves fewer override names without a pin. -/
theorem Catalog.unpinned_lt_of_expand {c : Catalog} {root : RootSpec} {old new : List Pin}
    (h : c.expand root old = .error (.restart new)) : c.unpinned root new < c.unpinned root old := by
  unfold expand at h
  split at h
  · rename_i x hstart
    obtain ⟨hx, hpins⟩ := Expansion.start_eq_ok hstart
    exact (hpins ▸ Expansion.pinsOneMore_run hx h).unpinned_lt
  · simp at h

/-- Repeat the expansion from the given pins on until no restart interrupts it. -/
def Catalog.expandFrom (c : Catalog) (root : RootSpec) (pins : List Pin) :
    Except GraphError Expansion :=
  match _ : c.expand root pins with
  | .ok x => .ok x
  | .error (.failed e) => .error e
  | .error (.restart pins) => expandFrom c root pins
termination_by c.unpinned root pins
decreasing_by
  rename_i h
  exact unpinned_lt_of_expand h

def Catalog.build (c : Catalog) (root : RootSpec) : Except GraphError Graph := do
  let x ← c.expandFrom root []
  let _ ← x.graph.layers
  return x.graph

end Provision
