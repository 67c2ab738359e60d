import Provision.Graph.Basic
import Provision.Requirement

/-!
Layers of a dependency graph, leaves first, and why there may be no graph. Every node has a count of
dependencies that are still ahead; a layer holds the nodes whose last dependency was settled with the
layer before, sorted by name. If some nodes are never settled, the graph has a cycle.
-/

namespace Provision

inductive GraphError
  /-- Two requirements ask for different versions of one package. -/
  | conflict (package : PackageName) (firstBy : Reference) (first : Constraint)
      (secondBy : Reference) (second : Constraint)
  /-- Packages depend on each other. -/
  | cycle (path : List Reference)
  /-- A package has no version that is asked for. -/
  | unsolvable (package : PackageName) (constraint : Constraint) (requester : Reference)
      (available : List Version)
  /-- A package or a recipe is not known. -/
  | notFound (what : String) (requester : Reference)
deriving DecidableEq, Repr

def GraphError.message : GraphError → String
  | .conflict package firstBy first secondBy second =>
    "Version conflict on '" ++ package.text ++ "': " ++ firstBy.text ++ " requires " ++
      package.text ++ "/" ++ first.text ++ ", " ++ secondBy.text ++ " requires " ++
      package.text ++ "/" ++ second.text
  | .cycle path => "Circular dependency: " ++ " -> ".intercalate (path.map Reference.text)
  | .unsolvable package constraint requester available =>
    "No version of '" ++ package.text ++ "' satisfies " ++ constraint.text ++ " (required by " ++
      requester.text ++ "); available: " ++
      if available.isEmpty then "none" else ", ".intercalate (available.map Version.text)
  | .notFound what requester =>
    "Recipe '" ++ what ++ "' not found (required by " ++ requester.text ++ ")"

namespace Graph

/-- The counts of dependencies ahead, and the nodes that have been released by now. -/
structure Progress where
  pending : List Nat
  released : List Nat
deriving DecidableEq, Repr

/-- One dependency of a node is settled; with the last one the node is released. -/
def Progress.settle (p : Progress) (dependent : Nat) : Progress :=
  match p.pending[dependent]? with
  | some 1 => ⟨p.pending.set dependent 0, p.released ++ [dependent]⟩
  | some count => ⟨p.pending.set dependent (count - 1), p.released⟩
  | none => p

def ahead : List Nat → Nat
  | [] => 0
  | count :: counts => count + ahead counts

private theorem ahead_set {counts : List Nat} {i : Nat} (value : Nat) (h : i < counts.length)
    (hvalue : value ≤ counts[i]) :
    ahead (counts.set i value) + (counts[i] - value) = ahead counts := by
  induction counts generalizing i with
  | nil => simp at h
  | cons count counts ih =>
    cases i with
    | zero =>
      simp only [List.set_cons_zero, ahead, List.getElem_cons_zero] at hvalue ⊢
      omega
    | succ i =>
      have := ih (by simpa using h) (by simpa using hvalue)
      simp only [List.set_cons_succ, ahead, List.getElem_cons_succ] at this ⊢
      omega

private theorem Progress.settle_measure (p : Progress) (dependent : Nat) :
    ahead (p.settle dependent).pending + (p.settle dependent).released.length ≤
      ahead p.pending + p.released.length := by
  unfold settle
  split
  · rename_i hone
    obtain ⟨hlt, heq⟩ := List.getElem?_eq_some_iff.mp hone
    have := ahead_set 0 hlt (by omega)
    simp only [List.length_append, List.length_cons, List.length_nil]
    omega
  · rename_i count _ hcount
    obtain ⟨hlt, heq⟩ := List.getElem?_eq_some_iff.mp hcount
    have := ahead_set (count - 1) hlt (by omega)
    simp only
    omega
  · exact Nat.le_refl _

def Progress.settleAll (pending : List Nat) (dependents : List Nat) : Progress :=
  dependents.foldl Progress.settle ⟨pending, []⟩

theorem Progress.settleAll_measure (pending dependents : List Nat) :
    ahead (settleAll pending dependents).pending + (settleAll pending dependents).released.length ≤
      ahead pending := by
  have h : ∀ (p : Progress), ahead (dependents.foldl settle p).pending +
      (dependents.foldl settle p).released.length ≤ ahead p.pending + p.released.length := by
    intro p
    induction dependents generalizing p with
    | nil => exact Nat.le_refl _
    | cons d dependents ih => exact Nat.le_trans (ih _) (p.settle_measure d)
  simpa [settleAll] using h ⟨pending, []⟩

/-- Nodes in the order of their names; nodes of one name keep their order. -/
def sortByName (g : Graph) (nodes : List Nat) : List Nat :=
  let name := fun i => g.nodes[i]?.map (·.reference.name)
  nodes.mergeSort fun a b => (compare (name a) (name b)).isLE

/-- The dependents of the nodes of a layer, with one entry for each edge. -/
def dependentsOfLayer (g : Graph) (layer : List Nat) : List Nat :=
  layer.flatMap fun i => (g.dependents i).map (·.source)

/-- The layers from a list of released nodes on, and the counts that remain in the end. -/
def layersFrom (g : Graph) (pending released : List Nat) : List (List Nat) × List Nat :=
  if released.isEmpty then ([], pending)
  else
    let layer := g.sortByName released
    let progress := Progress.settleAll pending (g.dependentsOfLayer layer)
    let (layers, rest) := layersFrom g progress.pending progress.released
    (layer :: layers, rest)
termination_by ahead pending + released.length
decreasing_by
  have := Progress.settleAll_measure pending (g.dependentsOfLayer (g.sortByName released))
  have : 0 < released.length := by
    cases released with
    | nil => simp at *
    | cons _ _ => simp
  omega

def initialPending (g : Graph) : List Nat :=
  (List.range g.size).map fun i => (g.dependencies i).length

/-- The layers of a graph. If it has a cycle, the error lists the nodes that could not be
settled. -/
def layers (g : Graph) : Except GraphError (List (List Nat)) :=
  let leaves := (List.range g.size).filter fun i => (g.dependencies i).isEmpty
  let (layers, rest) := layersFrom g g.initialPending leaves
  if layers.flatten.length < g.size then
    let stuck := (g.nodes.zip rest).filter fun (_, count) => 0 < count
    .error (.cycle (stuck.map fun (n, _) => n.reference))
  else .ok layers

end Graph

end Provision
