import Provision.BuildPolicy
import Provision.Graph.Basic

/-!
Passes over a graph whose nodes have been decided. Invalidity moves from dependencies to their
dependents, leaves first; then the packages whose binaries nobody needs are skipped, dependents
first.
-/

namespace Provision

/-- The reason that a dependent takes over from an invalid node: it names the package that rejects
its own configuration, at whatever distance. -/
def InvalidReason.inherited (r : Reference) : InvalidReason → InvalidReason
  | .own message => .dependency r message
  | .dependency origin message => .dependency origin message

/-- A node that has become invalid. One that is to be built all the same keeps its status. -/
def Node.invalidate (policy : BuildPolicy) (reason : InvalidReason) (n : Node) : Node :=
  if n.status = .build ∧ policy.selects n.reference then { n with invalid? := some reason }
  else
    { n with
      status? := some .invalid
      fallback? := none
      remote? := none
      invalid? := some reason }

namespace Graph

/-- The reason that a node takes over from the first of its dependencies that is invalid. -/
def inheritedReason? (g : Graph) (i : Nat) : Option InvalidReason :=
  (g.dependencies i).findSome? fun e => do
    let d ← g.nodes[e.target]?
    if d.isInvalid then (d.invalid?.map (·.inherited d.reference)) else none

def propagateAt (policy : BuildPolicy) (g : Graph) (i : Nat) : Graph :=
  match g.nodes[i]?, g.inheritedReason? i with
  | some n, some reason =>
    if n.isVirtual || n.invalid?.isSome then g else g.modifyNode i (·.invalidate policy reason)
  | _, _ => g

/-- Let invalidity move up the layers. -/
def propagateInvalid (g : Graph) (policy : BuildPolicy) (layers : List (List Nat)) : Graph :=
  layers.flatten.foldl (propagateAt policy) g

/-- Whether an edge needs no binary of its target: it is not transitive, and its source has its own
binary or needs none. -/
def isIdleEdge (g : Graph) (e : Edge) : Bool :=
  !e.isTransitive && g.nodes[e.source]?.any fun n => n.status.hasBinary || n.status == .skip

/-- Whether nobody needs the binary of a node. -/
def isUnneeded (g : Graph) (i : Nat) : Bool :=
  !(g.dependents i).isEmpty && (g.dependents i).all g.isIdleEdge

def skipNode (g : Graph) (i : Nat) : Graph :=
  g.modifyNode i fun n => { n with status? := some .skip }

/-- Skip a node, other than the root, if it is valid and nobody needs its binary. -/
def skipAt (g : Graph) (i : Nat) : Graph :=
  if i != 0 && g.nodes[i]?.any (·.invalid?.isNone) && g.isUnneeded i then g.skipNode i else g

def skipRoot (g : Graph) : Graph :=
  if g.nodes[0]?.any (·.isVirtual) then g.skipNode 0 else g

/-- Skip what nobody needs, down the layers. -/
def markSkipped (g : Graph) (layers : List (List Nat)) : Graph :=
  layers.reverse.flatten.foldl skipAt g.skipRoot

end Graph

end Provision
