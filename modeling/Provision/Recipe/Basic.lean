import Provision.PackageId
import Provision.Requirement

/-!
Recipes: what a package consumes, what it requires, and its hooks. Hooks are rules of its author
that judge a configuration, offer alternatives to it, or prune what goes into its identity. A hook
is a function of what it may see: its own package, the requested configuration, the identity
configuration, and the dependencies.
-/

namespace Provision

inductive HookError
  /-- No valid binary can exist for the configuration. -/
  | invalid (reason : String)
  /-- Anything else. -/
  | crash (message : String)
deriving DecidableEq, Repr

def HookError.message : HookError → String
  | .invalid reason => reason
  | .crash message => message

inductive HookKind
  | validate
  | compatibility
  | packageId
deriving DecidableEq, Repr

def HookKind.text : HookKind → String
  | .validate => "validate"
  | .compatibility => "compatibility"
  | .packageId => "package_id"

structure DependencyInfo where
  reference : Reference
  id? : Option PackageId
deriving DecidableEq, Repr

structure HookContext where
  reference : Reference
  /-- The requested configuration, before pruning. -/
  requested : Configuration
  /-- The configuration that is hashed, after pruning. -/
  info : Configuration
  /-- The dependencies that contribute to the identity. -/
  dependencies : List DependencyInfo
deriving DecidableEq, Repr

namespace HookContext

def setting? (c : HookContext) (key : String) : Option String :=
  c.requested.settings.get? key

def option? (c : HookContext) (key : String) : Option String :=
  c.requested.options.get? key

/-- The first dependency of a name, which is compared up to case. -/
def dependency? (c : HookContext) (name : String) : Option DependencyInfo :=
  c.dependencies.find? (·.reference.name.isText name)

end HookContext

/-- An alternative configuration: values that replace those of the requested one. -/
structure Candidate where
  settings : List (String × String)
  options : List (String × String)
deriving DecidableEq, Repr

def Candidate.apply (candidate : Candidate) (base : Configuration) : Configuration :=
  { base with
    settings := candidate.settings.foldl (fun m (key, value) => m.insert key value) base.settings
    options := candidate.options.foldl (fun m (key, value) => m.insert key value) base.options }

structure Hooks where
  validate? : Option (HookContext → Except HookError Unit)
  compatibility? : Option (HookContext → Except HookError (List Candidate))
  packageId? : Option (Configuration → Except HookError Configuration)

def Hooks.none : Hooks := ⟨.none, .none, .none⟩

instance : Inhabited Hooks := ⟨.none⟩

structure OptionDecl where
  /-- The values that are allowed; none listed allows every value. -/
  values : List String
  /-- The value where none is requested. -/
  default? : Option String
deriving DecidableEq, Repr, Inhabited

def OptionDecl.accepts (decl : OptionDecl) (value : String) : Bool :=
  decl.values.isEmpty || decl.values.contains value

structure Recipe where
  reference : Reference
  /-- The settings that the package depends on, each with its sub-settings. -/
  settings : List String
  options : OrderedMap String OptionDecl
  requires : List Requirement
  hooks : Hooks
deriving Inhabited

namespace Recipe

/-- Whether a recipe depends on a setting: it declares the setting or one above it, after whose name
the setting goes on with a dot. -/
def declaresSetting (r : Recipe) (key : String) : Bool :=
  r.settings.any fun declared =>
    key == declared || (Text.dropStart declared key).any fun rest => (Text.dropStart "." rest).isSome

def filterSettings (r : Recipe) (requested : Values) : Values :=
  requested.filter fun key _ => r.declaresSetting key

def defaultOptions (r : Recipe) : Values :=
  .ofList (r.options.entries.filterMap fun (name, decl) => decl.default?.map (name, ·))

end Recipe

end Provision
