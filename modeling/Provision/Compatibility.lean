import Provision.Identity

/-!
Compatible configurations. When the requested identity has no binary, the package may offer
candidates. They are identified and judged like the requested configuration, and the first one
that has a binary stands in for it.
-/

namespace Provision

/-- A candidate that was accepted: its position in the offer, and its identity. -/
structure PreparedCandidate where
  index : Nat
  id : PackageId
deriving DecidableEq, Repr

structure Exploration where
  selected? : Option (Fallback × Location)
  errors : List StoreError
deriving DecidableEq, Repr

/-- The configuration that a candidate stands for: its values over the requested ones, of which
the recipe keeps the settings that it depends on. -/
def Recipe.substituted (recipe : Recipe) (requested : Configuration) (candidate : Candidate) :
    Configuration :=
  let changed := candidate.apply requested
  { changed with settings := recipe.filterSettings changed.settings }

/-- Identify and judge candidates from a position on. Those that are invalid are dropped, and so
are those whose digest has been seen before. -/
def Recipe.prepare (recipe : Recipe) (context : HookContext) (requires : Values) :
    (index : Nat) → (seen : List String) → List Candidate →
      Except HookCrash (List PreparedCandidate)
  | _, _, [] => .ok []
  | index, seen, candidate :: rest => do
    let requested := recipe.substituted context.requested candidate
    let identity ← recipe.identify requested requires
    match ← recipe.judge { context with requested, info := identity.info } with
    | .invalid _ => recipe.prepare context requires (index + 1) seen rest
    | .valid =>
      if seen.contains identity.id.digest then
        recipe.prepare context requires (index + 1) seen rest
      else
        let prepared ← recipe.prepare context requires (index + 1) (identity.id.digest :: seen) rest
        return ⟨index, identity.id⟩ :: prepared

namespace Graph

def hookContext (g : Graph) (i : Nat) (n : Node) : HookContext :=
  ⟨n.reference, n.requested, n.info, g.dependencyInfos i⟩

def candidates (g : Graph) (mode : IdentityMode) (i : Nat) (n : Node) :
    Except HookCrash (List PreparedCandidate) :=
  match n.recipe? with
  | none => .ok []
  | some recipe =>
    match recipe.hooks.compatibility? with
    | none => .ok []
    | some hook => do
      let context := g.hookContext i n
      let offered ← crashOnError n.reference .compatibility (hook context)
      let seen := (n.id?.map (·.digest)).toList
      recipe.prepare context (g.contributions mode i) 0 seen offered

end Graph

/-- Look candidates up in order until one has a binary. -/
def Stores.firstAvailable (stores : Stores) (r : Reference) (requested : PackageId) :
    List PreparedCandidate → Exploration
  | [] => ⟨none, []⟩
  | candidate :: rest =>
    let lookup := stores.locate (.of r candidate.id)
    match lookup.location? with
    | some location =>
      ⟨some (⟨requested, candidate.id, candidate.index⟩, location), lookup.errors⟩
    | none =>
      let exploration := stores.firstAvailable r requested rest
      { exploration with errors := lookup.errors ++ exploration.errors }

def Stores.explore (stores : Stores) (n : Node) (candidates : List PreparedCandidate) :
    Exploration :=
  match n.id? with
  | none => ⟨none, []⟩
  | some requested => stores.firstAvailable n.reference requested candidates

end Provision
