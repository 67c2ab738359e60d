import Provision.BuildPolicy
import Provision.Compatibility

/-!
Deciding the status of a single node from its own validity, the stores and the build policy. The
states of its dependencies do not matter here.
-/

namespace Provision

/-- What is decided about a node. -/
structure Decision where
  status : BinaryStatus
  fallback? : Option Fallback
  remote? : Option String
  storeErrors : List StoreError
deriving DecidableEq, Repr

namespace Decision

def ofStatus (status : BinaryStatus) : Decision :=
  ⟨status, none, none, []⟩

def located (d : Decision) : Location → Decision
  | .cache => { d with status := .cache }
  | .remote name => { d with status := .download, remote? := some name }

end Decision

/-- What a decision needs to know beside the graph. -/
structure DecisionContext where
  stores : Stores
  policy : BuildPolicy
  mode : IdentityMode

namespace DecisionContext

/-- Let a candidate of the node stand in, if one has a binary; otherwise the decision stands. -/
def rescue (k : DecisionContext) (g : Graph) (i : Nat) (n : Node) (d : Decision) :
    Except HookCrash Decision := do
  let candidates ← g.candidates k.mode i n
  let exploration := k.stores.explore n candidates
  let d := { d with storeErrors := d.storeErrors ++ exploration.errors }
  match exploration.selected? with
  | none => return d
  | some (fallback, location) =>
    return { d with fallback? := some fallback, remote? := none }.located location

def decideValid (k : DecisionContext) (g : Graph) (i : Nat) (n : Node) (id : PackageId) :
    Except HookCrash Decision :=
  let forced := k.policy.isForced n.reference
  let lookup := k.stores.locate (.of n.reference id)
  let d : Decision := { Decision.ofStatus .missing with storeErrors := lookup.errors }
  match lookup.location?, forced with
  | some .cache, _ => .ok (d.located .cache)
  | some location, false => .ok (d.located location)
  | _, true => .ok { d with status := .build }
  | none, false => do
    let d ← k.rescue g i n d
    if d.fallback?.isNone && k.policy.buildsMissing n.reference then
      return { d with status := .build }
    else return d

/-- Decide a node. A node without an identity is skipped, and an invalid one needs a candidate
unless it is to be built by force. -/
def decide (k : DecisionContext) (g : Graph) (i : Nat) (n : Node) : Except HookCrash Decision :=
  match n.id? with
  | none => .ok (.ofStatus .skip)
  | some id =>
    if n.invalid?.isSome then
      if k.policy.isForced n.reference then .ok (.ofStatus .invalid)
      else k.rescue g i n (.ofStatus .invalid)
    else k.decideValid g i n id

end DecisionContext

end Provision
