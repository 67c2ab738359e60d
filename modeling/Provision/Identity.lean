import Provision.Graph.Search

/-!
Identities of packages in a graph, and verdicts about configurations. The identity of a node is that
of its requested configuration together with what its dependencies contribute, after the package's
own hook has pruned it. A package may declare a configuration invalid; any other failure of its hook
ends the resolution.
-/

namespace Provision

structure HookCrash where
  reference : Reference
  hook : HookKind
  message : String
deriving DecidableEq, Repr

def HookCrash.text (e : HookCrash) : String :=
  e.reference.text ++ ": Error in " ++ e.hook.text ++ "() hook: " ++ e.message

/-- An identity with the configuration that it was computed from. -/
structure Identity where
  info : Configuration
  id : PackageId
deriving DecidableEq, Repr

namespace Graph

def contribution (g : Graph) (mode : IdentityMode) (i : Nat) : Option (String × String) := do
  let n ← g.nodes[i]?
  let rendered ← mode.render n.reference n.id?
  return (n.reference.name.text, rendered)

def contributions (g : Graph) (mode : IdentityMode) (i : Nat) : Values :=
  .ofList ((g.identityClosure i).filterMap (g.contribution mode))

def dependencyInfos (g : Graph) (i : Nat) : List DependencyInfo :=
  (g.identityClosure i).filterMap fun d => g.nodes[d]?.map fun n => ⟨n.reference, n.id?⟩

end Graph

/-- The result of a hook that must not fail at all. -/
def crashOnError {α : Type} (r : Reference) (hook : HookKind) (result : Except HookError α) :
    Except HookCrash α :=
  result.mapError fun e => ⟨r, hook, e.message⟩

namespace Recipe

/-- The configuration that is hashed: the requested one with the contributions of dependencies,
as the package's own hook leaves it. -/
def prunedInfo (recipe : Recipe) (requested : Configuration) (requires : Values) :
    Except HookCrash Configuration :=
  let info := { requested with requires }
  match recipe.hooks.packageId? with
  | none => .ok info
  | some hook => crashOnError recipe.reference .packageId (hook info)

def identify (recipe : Recipe) (requested : Configuration) (requires : Values) :
    Except HookCrash Identity := do
  let info ← recipe.prunedInfo requested requires
  return ⟨info, .compute info⟩

end Recipe

/-- What a package says of a configuration. -/
inductive Verdict
  | valid
  | invalid (reason : String)
deriving DecidableEq, Repr

def Recipe.judge (recipe : Recipe) (context : HookContext) : Except HookCrash Verdict :=
  match recipe.hooks.validate? with
  | none => .ok .valid
  | some hook =>
    match hook context with
    | .ok () => .ok .valid
    | .error (.invalid reason) => .ok (.invalid reason)
    | .error (.crash message) => .error ⟨context.reference, .validate, message⟩

end Provision
