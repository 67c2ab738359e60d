import Provision.Recipe.Basic
import Provision.Toml.Document

/-!
Recipes written as TOML documents. The fields of a document are read in its order, so that of two
faults the first one counts; fields without a meaning are passed over.
-/

namespace Provision

inductive ManifestError
  /-- It is not a document, or has values of the wrong kind. -/
  | malformed
  /-- It lists a requirement that cannot be read. -/
  | requirement (error : RequirementError)
deriving DecidableEq, Repr

def orMalformed {α : Type} : Option α → Except ManifestError α
  | some a => .ok a
  | none => .error .malformed

namespace OptionDecl

def ofToml? (v : Toml.Value) : Option OptionDecl := do
  (← v.record? ["values", "default"]).foldlM field ⟨[], none⟩
where
  field (decl : OptionDecl) : String × Toml.Value → Option OptionDecl
    | ("values", v) => do return { decl with values := ← v.strings? }
    | ("default", v) => do return { decl with default? := some (← v.string?) }
    | _ => some decl

def mapOfToml? (v : Toml.Value) : Option (OrderedMap String OptionDecl) := do
  let entries ← (← v.table?).mapM fun (name, v) => return (name, ← ofToml? v)
  return .ofList entries

end OptionDecl

namespace RequirementSpec

/-- Read the stored form of a requirement: a text, or a table with a text and flags. -/
def ofToml? (v : Toml.Value) : Option RequirementSpec :=
  (short <$> v.string?) <|> do
    let fields ← v.table?
    let text ← (← fields.lookup "ref").string?
    let isOverride ← flag (fields.lookup "override") false
    let isTransitive ← flag (fields.lookup "transitive") true
    return detailed text isOverride isTransitive
where
  flag (v? : Option Toml.Value) (usual : Bool) : Option Bool :=
    v?.elim (some usual) (·.boolean?)

end RequirementSpec

def requirementsOfToml (v : Toml.Value) : Except ManifestError (List Requirement) := do
  (← orMalformed v.array?).mapM fun v => do
    (Requirement.ofSpec (← orMalformed (RequirementSpec.ofToml? v))).mapError .requirement

namespace Recipe

structure Draft where
  reference? : Option Reference
  settings : List String
  options : OrderedMap String OptionDecl
  requires : List Requirement

def referenceOfToml? (v : Toml.Value) : Option Reference := do
  let fields ← v.record? ["name", "version"]
  let name ← (← fields.lookup "name").string?
  let version ← (← fields.lookup "version").string?
  return .ofTexts name version

def Draft.field (d : Draft) : String × Toml.Value → Except ManifestError Draft
  | ("package", v) => do return { d with reference? := some (← orMalformed (referenceOfToml? v)) }
  | ("settings", v) => do return { d with settings := ← orMalformed v.strings? }
  | ("options", v) => do return { d with options := ← orMalformed (OptionDecl.mapOfToml? v) }
  | ("requires", v) => do return { d with requires := ← requirementsOfToml v }
  | _ => .ok d

def parse (content : String) : Except ManifestError Recipe := do
  let fields ← orMalformed (Toml.parse? content)
  let d ← fields.foldlM Draft.field ⟨none, [], ∅, []⟩
  let reference ← orMalformed d.reference?
  return ⟨reference, d.settings, d.options, d.requires, .none⟩

end Recipe

end Provision
