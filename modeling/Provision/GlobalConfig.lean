import Provision.PackageId
import Provision.Toml.Document

/-!
The global configuration: how dependencies go into identities, and how many store queries may run
at a time. It is kept with the other files of a user, in a directory that is named by an environment
variable, or else in a hidden directory in the user's own home.
-/

namespace Provision

structure GlobalConfig where
  mode : IdentityMode
  maxConcurrentQueries : Nat
deriving DecidableEq, Repr

namespace GlobalConfig

def default : GlobalConfig := ⟨.semver, 8⟩

instance : Inhabited GlobalConfig := ⟨default⟩

/-- The bound on concurrent queries that is in effect, which is never zero. -/
def effectiveQueries (c : GlobalConfig) : Nat :=
  max c.maxConcurrentQueries 1

def field (v? : Option Toml.Value) (name : String) (read : Toml.Value → Option α) (usual : α) :
    Option α :=
  match v? with
  | none => some usual
  | some v => do ((← v.record? [name]).lookup name).elim (some usual) read

def bound? : Toml.Value → Option Nat
  | .integer n => if 0 ≤ n then some n.toNat else none
  | _ => none

/-- Read a configuration; what is not configured has its default. -/
def parse? (content : String) : Option GlobalConfig := do
  let fields ← Toml.parse? content
  let readMode (v : Toml.Value) : Option IdentityMode := do IdentityMode.ofText? (← v.constant?)
  let mode ← field (fields.lookup "package_id") "default_unknown_mode" readMode default.mode
  let queries ← field (fields.lookup "resolver") "max_concurrent_queries" bound?
    default.maxConcurrentQueries
  return ⟨mode, queries⟩

end GlobalConfig

/-- A path below another: one slash stands between the two, unless the first is empty or ends in a
slash. -/
def joinPath (base name : String) : String :=
  if base.isEmpty || base.toList.getLast? == some '/' then base ++ name else base ++ "/" ++ name

/-- The environment that decides where files are kept. -/
structure Environment where
  /-- The user's home. -/
  home : String
  /-- The value of `KILN_HOME`. -/
  override? : Option String
deriving DecidableEq, Repr

namespace Environment

def homeDirectory (e : Environment) : String :=
  e.override?.getD (joinPath e.home ".kiln")

def configPath (e : Environment) : String :=
  joinPath e.homeDirectory "global.toml"

def profilePath (e : Environment) : String :=
  joinPath (joinPath e.homeDirectory "profiles") "default.toml"

end Environment

end Provision
