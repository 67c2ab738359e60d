import Provision.Graph.Basic

/-!
Reports: the view of a resolved graph that front ends render, and the events that they follow
while a resolution is under way.
-/

namespace Provision

structure FallbackReport where
  requested : String
  selected : String
  candidateIndex : Nat
deriving DecidableEq, Repr

structure NodeReport where
  reference : String
  isVirtual : Bool
  id? : Option String
  effectiveId? : Option String
  status? : Option BinaryStatus
  invalid? : Option InvalidReason
  fallback? : Option FallbackReport
  remote? : Option String
  /-- The references of the dependencies, in the order of the edges. -/
  dependencies : List String
  storeErrors : List String
deriving DecidableEq, Repr

structure GraphReport where
  root : String
  nodes : List NodeReport
deriving DecidableEq, Repr

namespace Graph

def nodeReport (g : Graph) (i : Nat) (n : Node) : NodeReport where
  reference := n.reference.text
  isVirtual := n.isVirtual
  id? := n.id?.map (·.digest)
  effectiveId? := n.effectiveId?.map (·.digest)
  status? := n.status?
  invalid? := n.invalid?
  fallback? := n.fallback?.map fun f => ⟨f.requested.digest, f.selected.digest, f.candidateIndex⟩
  remote? := n.remote?
  dependencies := (g.dependencies i).filterMap fun e => g.nodes[e.target]?.map (·.reference.text)
  storeErrors := n.storeErrors.map StoreError.message

def report (g : Graph) : GraphReport where
  root := (g.nodes.head?.map (·.reference.text)).getD ""
  nodes := g.nodes.mapIdx g.nodeReport

end Graph

def GraphReport.node? (report : GraphReport) (reference : String) : Option NodeReport :=
  report.nodes.find? (·.reference == reference)

/-- What a front end is told while a resolution is under way. -/
inductive Event
  /-- A new phase begins. -/
  | phase (title : String)
  /-- The status of a node is final. -/
  | nodeResolved (report : NodeReport)
  /-- A candidate stands in for the requested identity. -/
  | fallback (reference : Reference) (fallback : Fallback)
  /-- A node cannot have a valid binary. -/
  | invalid (reference : Reference) (reason : InvalidReason)
  /-- A store did not answer a query, which counts as not having the binary. -/
  | storeUnavailable (reference : Reference) (error : StoreError)
  /-- The final graph. -/
  | graph (report : GraphReport)
deriving DecidableEq, Repr

end Provision
