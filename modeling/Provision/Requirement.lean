import Provision.Reference
import Provision.Semver.Range

/-!
Requirements of one package on another. A requirement names a package and constrains its version,
either to one version or to a range in brackets. It may be an override, which fixes the version
for a whole graph without being a dependency, and it may be hidden from the packages further up.
-/

namespace Provision

/-- What a requirement asks of a version. -/
inductive Constraint
  | exact (version : Version)
  | range (range : Semver.Range)
deriving DecidableEq, Repr

namespace Constraint

def text : Constraint → String
  | .exact v => v.text
  | .range r => "[" ++ r.text ++ "]"

/-- Whether a version satisfies a constraint. Exact versions compare by their semantic reading
where both have one, and as texts otherwise; a range holds semantic versions only. -/
def isSatisfied (constraint : Constraint) (v : Version) : Bool :=
  match constraint with
  | .exact expected =>
    match expected.semver?, v.semver? with
    | some a, some b => a == b
    | _, _ => expected == v
  | .range r => v.semver?.any r.contains

/-- Read the body of a range: comparators between blanks or commas, where no comparator at all
accepts every version. -/
def parseRange (body : String) : Except Semver.SyntaxError Constraint :=
  let comparators := Text.words (fun c => c == ',' || Text.isBlank c) body.toList
  let joined := [',', ' '].intercalate comparators
  .range <$> Semver.Range.parse (if joined.isEmpty then ['*'] else joined)

instance : ToString Constraint := ⟨text⟩

end Constraint

structure Requirement where
  name : PackageName
  constraint : Constraint
  /-- The requirement fixes the version of `name` for the whole graph and adds no dependency. -/
  isOverride : Bool
  /-- Packages that require the requirer see the dependency too. -/
  isTransitive : Bool
deriving DecidableEq, Repr

/-- Why a text is not a requirement; each cause keeps the text. -/
inductive RequirementError
  | malformed (input : String)
  | badRange (input range : String) (reason : Semver.SyntaxError)
deriving DecidableEq, Repr

def RequirementError.message : RequirementError → String
  | .malformed input =>
    "Invalid requirement '" ++ input ++ "': expected 'name/version' or 'name/[range]'"
  | .badRange input range reason =>
    "Invalid version range '" ++ range ++ "' in '" ++ input ++ "': " ++ reason.message

/-- The stored form of a requirement: its text, with the flags where they are not the usual ones. -/
inductive RequirementSpec
  | short (text : String)
  | detailed (text : String) (isOverride isTransitive : Bool)
deriving DecidableEq, Repr

namespace Requirement

/-- Read the constraint of a requirement from the text after the slash; `input` is the whole
requirement. -/
def parseConstraint (input rest : String) : Except RequirementError Constraint :=
  match rest.toList with
  | '[' :: body =>
    match body.getLast? with
    | some ']' =>
      let body := String.ofList body.dropLast
      match Constraint.parseRange body with
      | .ok constraint => .ok constraint
      | .error reason => .error (.badRange input body reason)
    | _ => .error (.malformed input)
  | _ => .ok (.exact (.ofText rest))

def parse (s : String) : Except RequirementError Requirement :=
  match Text.cutFirst '/' (Text.trim s) with
  | none => .error (.malformed s)
  | some (name, rest) => do
    let rest := Text.trim rest
    if Text.isBlankText name || rest.isEmpty then throw (.malformed s)
    let constraint ← parseConstraint s rest
    return ⟨.ofText name, constraint, false, true⟩

def text (r : Requirement) : String :=
  r.name.text ++ "/" ++ r.constraint.text

def overriding (r : Requirement) : Requirement :=
  { r with isOverride := true }

def nonTransitive (r : Requirement) : Requirement :=
  { r with isTransitive := false }

def toSpec (r : Requirement) : RequirementSpec :=
  if !r.isOverride && r.isTransitive then .short r.text
  else .detailed r.text r.isOverride r.isTransitive

def ofSpec : RequirementSpec → Except RequirementError Requirement
  | .short text => parse text
  | .detailed text isOverride isTransitive => do
    let r ← parse text
    return { r with isOverride, isTransitive }

instance : ToString Requirement := ⟨text⟩

end Requirement

end Provision
