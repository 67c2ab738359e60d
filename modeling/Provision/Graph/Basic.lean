import Provision.Recipe.Basic
import Provision.Store

/-!
Dependency graphs. Nodes are known by their index, the root first, and edges are pairs of indexes
in the order in which the requirements were met. A node is a package with its recipe, or a virtual
root that only has requirements. The status of a node says what has to happen to obtain its binary.
-/

namespace Provision

inductive BinaryStatus
  /-- The package is compiled from source. -/
  | build
  /-- The local store has the binary. -/
  | cache
  /-- Only a remote store has the binary. -/
  | download
  /-- No store has the binary, and building it was not asked for. -/
  | missing
  /-- No binary can be valid for the configuration. -/
  | invalid
  /-- There is nothing to do. -/
  | skip
deriving DecidableEq, Repr, Inhabited

namespace BinaryStatus

def text : BinaryStatus → String
  | .build => "Build"
  | .cache => "Cache"
  | .download => "Download"
  | .missing => "Missing"
  | .invalid => "Invalid"
  | .skip => "Skip"

def all : List BinaryStatus := [.build, .cache, .download, .missing, .invalid, .skip]

def ofText? (s : String) : Option BinaryStatus :=
  all.find? (·.text == s)

/-- Whether an existing binary serves the package. -/
def hasBinary (s : BinaryStatus) : Bool :=
  s == .cache || s == .download

instance : ToString BinaryStatus := ⟨text⟩

end BinaryStatus

/-- Why a node cannot have a valid binary. -/
inductive InvalidReason
  /-- The package itself rejects its configuration. -/
  | own (message : String)
  /-- A dependency, at whatever distance, rejects its configuration. -/
  | dependency (reference : Reference) (message : String)
deriving DecidableEq, Repr

def InvalidReason.text : InvalidReason → String
  | .own message => message
  | .dependency reference message => "Invalid dependency " ++ reference.text ++ ": " ++ message

/-- A candidate that stands in for the requested identity. -/
structure Fallback where
  requested : PackageId
  selected : PackageId
  /-- The position of the candidate among those that were offered. -/
  candidateIndex : Nat
deriving DecidableEq, Repr

/-- A requirement that was met: the requiring node, and the node that was chosen for it. -/
structure Edge where
  source : Nat
  target : Nat
  constraint : Constraint
  isTransitive : Bool
  position : Nat
deriving DecidableEq, Repr

/-- A node with what a resolution has found out about it. -/
structure Node where
  reference : Reference
  /-- The recipe of a package; the virtual root has none. -/
  recipe? : Option Recipe
  /-- The requested configuration. -/
  requested : Configuration
  /-- The configuration that is hashed. -/
  info : Configuration
  id? : Option PackageId
  status? : Option BinaryStatus
  invalid? : Option InvalidReason
  fallback? : Option Fallback
  /-- The remote that has the binary. -/
  remote? : Option String
  storeErrors : List StoreError

namespace Node

def new (reference : Reference) (recipe? : Option Recipe) : Node :=
  ⟨reference, recipe?, ∅, ∅, none, none, none, none, none, []⟩

/--
Whether a node is a virtual root. The kind of a node is read off its recipe: a graph starts from a
consumer, which is made without one, or from a package, and every later node is a package that was
found in the catalog, so that exactly the consumer has none. No step of a resolution changes the
recipe of a node.
-/
def isVirtual (n : Node) : Bool :=
  n.recipe?.isNone

def binaryKey? (n : Node) : Option BinaryKey :=
  n.id?.map (.of n.reference)

def effectiveId? (n : Node) : Option PackageId :=
  (n.fallback?.map (·.selected)) <|> n.id?

/-- The status of a node, which is missing until it is decided. -/
def status (n : Node) : BinaryStatus :=
  n.status?.getD .missing

/-- Whether a node is invalid and no candidate stands in for it. -/
def isInvalid (n : Node) : Bool :=
  n.invalid?.isSome && n.fallback?.isNone

end Node

structure Graph where
  nodes : List Node
  edges : List Edge

namespace Graph

def ofRoot (root : Node) : Graph := ⟨[root], []⟩

def size (g : Graph) : Nat :=
  g.nodes.length

def addNode (g : Graph) (n : Node) : Graph :=
  { g with nodes := g.nodes ++ [n] }

def addEdge (g : Graph) (e : Edge) : Graph :=
  { g with edges := g.edges ++ [e] }

def modifyNode (g : Graph) (i : Nat) (f : Node → Node) : Graph :=
  { g with nodes := g.nodes.modify i f }

/-- The package node of a name, which is read like any package name. -/
def find? (g : Graph) (name : String) : Option Nat :=
  (List.range g.size).reverse.find? fun i =>
    g.nodes[i]?.any fun n => !n.isVirtual && n.reference.name == .ofText name

def dependencies (g : Graph) (i : Nat) : List Edge :=
  g.edges.filter (·.source == i)

def dependents (g : Graph) (i : Nat) : List Edge :=
  g.edges.filter (·.target == i)

def invalidNodes (g : Graph) : List Node :=
  g.nodes.filter (·.isInvalid)

def missingNodes (g : Graph) : List Node :=
  g.nodes.filter (·.status? == some .missing)

end Graph

end Provision
