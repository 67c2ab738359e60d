import Provision.Catalog
import Provision.Graph.Layers
import Provision.Graph.Search

/-!
Graph expansion. Requirements are met breadth first, and each package name gets a single node: the
first version that is chosen for a name stays, and later requirements have to accept it. An
override pins the version of a name for the whole graph; a pin that a chosen version does not
satisfy restarts the expansion with the pin in place. This module says how a single requirement is
met.
-/

namespace Provision

/-- What stands at the top of a graph. -/
inductive RootSpec
  /-- A package that is resolved itself. -/
  | package (reference : Reference)
  /-- A consumer that only has requirements. -/
  | consumer (requirements : List Requirement)

def consumerReference : Reference := .ofTexts "consumer" "virtual"

def RootSpec.requirements : RootSpec → List Requirement
  | .package _ => []
  | .consumer requirements => requirements

/-- A version constraint that holds for a name in the whole graph. -/
structure Pin where
  name : PackageName
  constraint : Constraint
  requester : Reference
deriving DecidableEq, Repr

/-- The version that was chosen for a name, its node, and the requirement that brought it in. -/
structure Choice where
  name : PackageName
  version : Version
  node : Nat
  requester : Reference
  constraint : Constraint
deriving DecidableEq, Repr

def isPinned (pins : List Pin) (name : PackageName) : Bool :=
  pins.any (·.name == name)

structure Expansion where
  graph : Graph
  choices : List Choice
  pins : List Pin
  /-- The nodes whose requirements are still to be met. -/
  queue : List Nat
  /-- How many requirements have been met. -/
  position : Nat

/-- Why an expansion stops early. -/
inductive Interruption
  /-- A new pin does not fit what was chosen; the pins are those of the next attempt. -/
  | restart (pins : List Pin)
  | failed (error : GraphError)

namespace Expansion

def pin? (x : Expansion) (name : PackageName) : Option Pin :=
  x.pins.find? (·.name == name)

def choice? (x : Expansion) (name : PackageName) : Option Choice :=
  x.choices.find? (·.name == name)

/-- Record an override. An override that repeats the pin of its name changes nothing. -/
def registerPin (x : Expansion) (requester : Reference) (req : Requirement) :
    Except Interruption Expansion :=
  match x.pin? req.name with
  | some pin =>
    if pin.constraint = req.constraint then .ok x
    else
      .error <| .failed <|
        .conflict req.name pin.requester pin.constraint requester req.constraint
  | none =>
    let pins := x.pins ++ [⟨req.name, req.constraint, requester⟩]
    match x.choice? req.name with
    | some chosen =>
      if req.constraint.isSatisfied chosen.version then .ok { x with pins }
      else .error (.restart pins)
    | none => .ok { x with pins }

end Expansion

/-- The greatest available version of a package that satisfies a constraint. -/
def Catalog.chooseVersion (c : Catalog) (name : PackageName) (constraint : Constraint)
    (requester : Reference) : Except GraphError Version :=
  let available := c.available name
  if available.isEmpty then .error (.notFound name.text requester)
  else
    match available.reverse.find? constraint.isSatisfied with
    | some v => .ok v
    | none => .error (.unsolvable name constraint requester available)

def Catalog.choose (c : Catalog) (name : PackageName) (constraint : Constraint)
    (requester : Reference) : Except GraphError (Version × Recipe) := do
  let version ← c.chooseVersion name constraint requester
  match c.recipe? ⟨name, version⟩ with
  | some recipe => return (version, recipe)
  | none => throw (.notFound (Reference.text ⟨name, version⟩) requester)

namespace Expansion

/-- Join a requirement to the node that its name has already. The version must satisfy the
constraint, and the new edge must not close a cycle. -/
def joinChoice (x : Expansion) (current : Nat) (requester : Reference) (req : Requirement)
    (constraint : Constraint) (chosen : Choice) : Except Interruption Expansion :=
  if !constraint.isSatisfied chosen.version then
    .error <| .failed <|
      .conflict req.name chosen.requester chosen.constraint requester req.constraint
  else
    match x.graph.path? chosen.node current with
    | some path =>
      let references := (path ++ [chosen.node]).filterMap fun i =>
        x.graph.nodes[i]?.map (·.reference)
      .error (.failed (.cycle references))
    | none =>
      let edge := ⟨current, chosen.node, constraint, req.isTransitive, x.position + 1⟩
      .ok { x with graph := x.graph.addEdge edge, position := x.position + 1 }

def addChoice (x : Expansion) (current : Nat) (requester : Reference) (req : Requirement)
    (constraint : Constraint) (version : Version) (recipe : Recipe) : Expansion :=
  let node := x.graph.size
  let edge := ⟨current, node, constraint, req.isTransitive, x.position + 1⟩
  { graph := (x.graph.addNode (.new ⟨req.name, version⟩ (some recipe))).addEdge edge
    choices := x.choices ++ [⟨req.name, version, node, requester, constraint⟩]
    pins := x.pins
    queue := x.queue ++ [node]
    position := x.position + 1 }

/-- Meet one requirement of a node. A pin takes the place of the constraint. -/
def meet (c : Catalog) (current : Nat) (requester : Reference) (x : Expansion)
    (req : Requirement) : Except Interruption Expansion :=
  if req.isOverride then x.registerPin requester req
  else
    let constraint := (x.pin? req.name).elim req.constraint (·.constraint)
    match x.choice? req.name with
    | some chosen => x.joinChoice current requester req constraint chosen
    | none =>
      match c.choose req.name constraint requester with
      | .ok (version, recipe) =>
        .ok (x.addChoice current requester req constraint version recipe)
      | .error e => .error (.failed e)

/-- The requirements of a node: those of its recipe, or those of the consumer. -/
def requirementsOf (root : RootSpec) (n : Node) : List Requirement :=
  n.recipe?.elim root.requirements (·.requires)

def unchosen (c : Catalog) (x : Expansion) : Nat :=
  c.names.countP fun name => !x.choices.any (·.name == name)

/-- What is left to do: names without a node, and nodes on the queue. -/
def remaining (c : Catalog) (x : Expansion) : Nat :=
  x.unchosen c + x.queue.length

end Expansion

end Provision
