import Provision.Reference
import Provision.Text.Basic

/-!
Build policies: which packages may be compiled from source. An entry `missing` lets every package
be built that has no binary, `missing:p` those that match `p`, and any other pattern asks for
packages to be built whether a remote binary exists or not; `never` asks for nothing.
-/

namespace Provision

inductive MissingRule
  | never
  | every
  | matching (patterns : List ReferencePattern)
deriving DecidableEq, Repr

structure BuildPolicy where
  missing : MissingRule
  forced : List ReferencePattern
deriving DecidableEq, Repr

namespace MissingRule

def addPattern (p : ReferencePattern) : MissingRule → MissingRule
  | .never => .matching [p]
  | .every => .every
  | .matching patterns => .matching (patterns ++ [p])

def allows (r : Reference) : MissingRule → Bool
  | .never => false
  | .every => true
  | .matching patterns => patterns.any (·.isMatch r)

end MissingRule

namespace BuildPolicy

def never : BuildPolicy := ⟨.never, []⟩

def everyMissing : BuildPolicy := ⟨.every, []⟩

def force (policy : BuildPolicy) (pattern : String) : Except PatternError BuildPolicy := do
  return { policy with forced := policy.forced ++ [← ReferencePattern.parse pattern] }

def addEntry (policy : BuildPolicy) (entry : String) : Except PatternError BuildPolicy :=
  let entry := Text.trim entry
  if entry = "never" ∨ entry = "" then .ok policy
  else if entry = "missing" then .ok { policy with missing := .every }
  else
    match Text.dropStart "missing:" entry with
    | some pattern => do
      return { policy with missing := policy.missing.addPattern (← ReferencePattern.parse pattern) }
    | none => policy.force entry

def parse (entries : List String) : Except PatternError BuildPolicy :=
  entries.foldlM addEntry never

/-- Whether a package is to be built although a remote binary exists. -/
def isForced (policy : BuildPolicy) (r : Reference) : Bool :=
  policy.forced.any (·.isMatch r)

/-- Whether a package may be built when no binary exists. -/
def buildsMissing (policy : BuildPolicy) (r : Reference) : Bool :=
  policy.missing.allows r

/-- Whether a policy selects a package for building at all. -/
def selects (policy : BuildPolicy) (r : Reference) : Bool :=
  policy.isForced r || policy.buildsMissing r

end BuildPolicy

end Provision
