import Provision.Expansion.Build
import Provision.GlobalConfig
import Provision.Profile
import Provision.Propagation
import Provision.Report
import Provision.Resolution.Executor

/-!
Resolutions. A request is expanded into a graph; its packages are configured; leaves first, each
gets its identity and is judged; every package is decided on its own; invalidity moves up, and
what nobody needs is skipped. The phases and findings are told as events, and a resolution that
fails keeps the events up to its failure. What a resolution has found on remotes can be fetched.
A front end ends with an exit status.
-/

namespace Provision

inductive ResolveError
  | graph (error : GraphError)
  | hook (crash : HookCrash)
  | option (error : OptionError)
deriving DecidableEq, Repr

namespace ResolveError

def message : ResolveError → String
  | .graph error => error.message
  | .hook crash => crash.text
  | .option error => error.message

/-- Whether there is no graph at all. -/
def isStructural : ResolveError → Bool
  | .graph _ => true
  | _ => false

end ResolveError

structure ResolveRequest where
  root : RootSpec
  profile : Profile
  policy : BuildPolicy

structure Resolver where
  catalog : Catalog
  stores : Stores
  config : GlobalConfig
  executor : Executor := .inOrder

structure Resolution where
  graph : Graph

inductive Outcome
  | ready
  /-- Some binary exists nowhere and will not be built. -/
  | missingBinaries
  /-- Some package cannot have a valid binary. -/
  | invalidPackages
deriving DecidableEq, Repr

namespace Outcome

def text : Outcome → String
  | .ready => "Ready"
  | .missingBinaries => "MissingBinaries"
  | .invalidPackages => "InvalidPackages"

def all : List Outcome := [.ready, .missingBinaries, .invalidPackages]

def ofText? (s : String) : Option Outcome :=
  all.find? (·.text == s)

end Outcome

namespace Resolution

def outcome (r : Resolution) : Outcome :=
  if !r.graph.invalidNodes.isEmpty then .invalidPackages
  else if !r.graph.missingNodes.isEmpty then .missingBinaries
  else .ready

end Resolution

/-- A computation that tells events and may fail. -/
abbrev ResolveM := EStateM ResolveError (List Event)

def tell (event : Event) : ResolveM Unit :=
  modify (· ++ [event])

def orFail {ε α : Type} (wrap : ε → ResolveError) : Except ε α → ResolveM α
  | .ok a => pure a
  | .error e => throw (wrap e)

namespace Resolver

def configureNode (profile : Profile) (i : Nat) (n : Node) : Except OptionError Node :=
  match n.recipe? with
  | none => .ok n
  | some recipe => do return { n with requested := ← profile.configure recipe (i == 0) }

def configure (profile : Profile) (g : Graph) : Except OptionError Graph := do
  let nodes ← (g.nodes.mapIdx (·, ·)).mapM fun (i, n) => configureNode profile i n
  return { g with nodes }

def rejection? : Verdict → Option InvalidReason
  | .valid => none
  | .invalid message => some (.own message)

def identifyNode (mode : IdentityMode) (g : Graph) (i : Nat) (n : Node) (recipe : Recipe) :
    Except HookCrash (Identity × Option InvalidReason) := do
  let identity ← recipe.identify n.requested (g.contributions mode i)
  let verdict ← recipe.judge { g.hookContext i n with info := identity.info }
  return (identity, rejection? verdict)

def identifiedNode (identity : Identity) (reason? : Option InvalidReason) (n : Node) : Node :=
  { n with
    info := identity.info
    id? := some identity.id
    invalid? := reason? <|> n.invalid? }

def identifyAt (mode : IdentityMode) (g : Graph) (i : Nat) : ResolveM Graph :=
  match g.nodes[i]? with
  | none => pure g
  | some n =>
    match n.recipe? with
    | none => pure g
    | some recipe => do
      let (identity, reason?) ← orFail .hook (identifyNode mode g i n recipe)
      match reason? with
      | some reason => tell (.invalid n.reference reason)
      | none => pure ()
      return g.modifyNode i (identifiedNode identity reason?)

def decideAt (k : DecisionContext) (g : Graph) (i : Nat) : Except HookCrash (Option Decision) :=
  match g.nodes[i]? with
  | none => .ok none
  | some n => if n.isVirtual then .ok none else some <$> k.decide g i n

/-- Decide every package node. The first decision that is completed with a failure is the failure of
them all; if none fails, the decisions are listed in the order of the nodes. -/
def decideAll (executor : Executor) (k : DecisionContext) (g : Graph) :
    Except HookCrash (List (Option Decision)) := do
  let completed ← (executor.order k g).mapM fun i => (i, ·) <$> decideAt k g i
  return (List.range g.size).map fun i => (completed.lookup i).join

def decidedNode (n : Node) (d : Decision) : Node :=
  { n with
    status? := some d.status
    fallback? := d.fallback?
    remote? := d.remote?
    storeErrors := d.storeErrors }

def applyDecision (n : Node) : Option Decision → ResolveM Node
  | none => pure n
  | some d => do
    d.storeErrors.forM fun e => tell (.storeUnavailable n.reference e)
    match d.fallback? with
    | some f => tell (.fallback n.reference f)
    | none => pure ()
    return decidedNode n d

/-- Tell which nodes have become invalid through their dependencies. -/
def tellInherited (n : Node) : ResolveM Unit :=
  match n.invalid? with
  | some (.dependency origin message) => tell (.invalid n.reference (.dependency origin message))
  | _ => pure ()

def tellResolved (g : Graph) (i : Nat) : ResolveM Unit :=
  match g.nodes[i]? with
  | some n => tell (.nodeResolved (g.nodeReport i n))
  | none => pure ()

def run (resolver : Resolver) (request : ResolveRequest) : ResolveM Resolution := do
  let mode := resolver.config.mode
  tell (.phase "Computing dependency graph")
  let g ← orFail .graph (resolver.catalog.build request.root)
  let layers ← orFail .graph g.layers
  let g ← orFail .option (configure request.profile g)
  tell (.phase "Computing package IDs")
  let g ← layers.flatten.foldlM (identifyAt mode) g
  tell (.phase "Computing necessary packages")
  let decisions ←
    orFail .hook (decideAll resolver.executor ⟨resolver.stores, request.policy, mode⟩ g)
  let nodes ← (g.nodes.zip decisions).mapM fun (n, d?) => applyDecision n d?
  let g := { g with nodes }
  let g := g.propagateInvalid request.policy layers
  g.nodes.forM tellInherited
  let g := g.markSkipped layers
  layers.flatten.forM (tellResolved g)
  tell (.graph g.report)
  return ⟨g⟩

/-- Resolve a request: the resolution or its failure, and the events that were told. -/
def resolve (resolver : Resolver) (request : ResolveRequest) :
    Except ResolveError Resolution × List Event :=
  match (resolver.run request).run [] with
  | .ok resolution events => (.ok resolution, events)
  | .error e events => (.error e, events)

end Resolver

def Stores.fetchNode (stores : Stores) (n : Node) : Except StoreError BinaryHandle :=
  let name := n.remote?.getD ""
  match stores.remote? name with
  | none => .error (.unavailable name "remote is not configured")
  | some store =>
    match n.effectiveId? with
    | none => .error (.unavailable name "node has no package ID")
    | some id => store.fetch (.of n.reference id)

def Graph.downloads (g : Graph) : List Node :=
  g.nodes.filter (·.status? == some .download)

def fetchPhase : Event := .phase "Downloading binaries"

/-- Fetch every binary that has to be fetched, and list them by reference. -/
def Resolution.fetch (r : Resolution) (stores : Stores) : Except StoreError (List BinaryHandle) := do
  let handles ← r.graph.downloads.mapM stores.fetchNode
  return handles.mergeSort fun a b => (compare a.key.reference b.key.reference).isLE

inductive ExitStatus
  | success
  | generalFailure
  /-- Setting up failed; no resolution ends with this status. -/
  | migrationError
  | invalidConfiguration
  | unsolvableGraph
deriving DecidableEq, Repr

namespace ExitStatus

def text : ExitStatus → String
  | .success => "Success"
  | .generalFailure => "GeneralFailure"
  | .migrationError => "MigrationError"
  | .invalidConfiguration => "InvalidConfiguration"
  | .unsolvableGraph => "UnsolvableGraph"

def all : List ExitStatus :=
  [.success, .generalFailure, .migrationError, .invalidConfiguration, .unsolvableGraph]

def ofText? (s : String) : Option ExitStatus :=
  all.find? (·.text == s)

def code : ExitStatus → Nat
  | .success => 0
  | .generalFailure => 1
  | .migrationError => 2
  | .invalidConfiguration => 6
  | .unsolvableGraph => 7

def ofOutcome : Outcome → ExitStatus
  | .ready => .success
  | .missingBinaries => .generalFailure
  | .invalidPackages => .invalidConfiguration

def ofError (e : ResolveError) : ExitStatus :=
  if e.isStructural then .unsolvableGraph else .generalFailure

def ofResult : Except ResolveError Resolution → ExitStatus
  | .ok r => ofOutcome r.outcome
  | .error e => ofError e

end ExitStatus

end Provision
