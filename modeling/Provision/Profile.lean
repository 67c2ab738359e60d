import Provision.Recipe.Basic
import Provision.Reference
import Provision.Text.Basic
import Provision.Toml.Document

/-!
Profiles: the settings and options that a user requests. The options of a package are its defaults
under the assignments that apply to it, of which later ones win; an assignment without a scope
applies to the root package only. A profile is written as a TOML document with a table of settings
and a table of options. An option key with a colon is a pattern and a name, cut at the last colon;
options are taken in key order.
-/

namespace Provision

structure OptionAssignment where
  /-- The packages that the assignment is for; none means the root package. -/
  scope? : Option ReferencePattern
  name : String
  value : String
deriving DecidableEq, Repr

def OptionAssignment.appliesTo (a : OptionAssignment) (r : Reference) (isRoot : Bool) : Bool :=
  a.scope?.elim isRoot (·.isMatch r)

structure Profile where
  settings : Values
  options : List OptionAssignment
deriving DecidableEq, Repr

/-- Why a profile does not fit a recipe. -/
inductive OptionError
  | invalidValue (reference : Reference) (option value : String) (allowed : List String)
  | unknownOption (reference : Reference) (option : String)
deriving DecidableEq, Repr

def OptionError.message : OptionError → String
  | .invalidValue reference option value allowed =>
    reference.text ++ ": '" ++ value ++ "' is not a valid value for option '" ++ option ++
      "' (allowed: " ++ ", ".intercalate allowed ++ ")"
  | .unknownOption reference option =>
    reference.text ++ ": option '" ++ option ++ "' is not declared"

namespace Profile

def empty : Profile := ⟨∅, []⟩

instance : EmptyCollection Profile := ⟨empty⟩

def setting (p : Profile) (key value : String) : Profile :=
  { p with settings := p.settings.insert key value }

def option (p : Profile) (name value : String) : Profile :=
  { p with options := p.options ++ [⟨none, name, value⟩] }

def scopedOption (p : Profile) (pattern name value : String) : Except PatternError Profile := do
  return { p with options := p.options ++ [⟨some (← ReferencePattern.parse pattern), name, value⟩] }

def optionsFor (p : Profile) (r : Reference) (isRoot : Bool) : List OptionAssignment :=
  p.options.filter (·.appliesTo r isRoot)

/-- Put one assignment over the options of a recipe. An assignment with a scope passes over
recipes that do not declare the option. -/
def assignOption (recipe : Recipe) (options : Values) (a : OptionAssignment) :
    Except OptionError Values :=
  match recipe.options.get? a.name with
  | none =>
    if a.scope?.isNone then .error (.unknownOption recipe.reference a.name) else .ok options
  | some decl =>
    if decl.accepts a.value then .ok (options.insert a.name a.value)
    else .error (.invalidValue recipe.reference a.name a.value decl.values)

def configure (p : Profile) (recipe : Recipe) (isRoot : Bool) :
    Except OptionError Configuration := do
  let assignments := p.optionsFor recipe.reference isRoot
  let options ← assignments.foldlM (assignOption recipe) recipe.defaultOptions
  return ⟨recipe.filterSettings p.settings, options, ∅⟩

end Profile

inductive ProfileError
  | malformed
  | pattern (error : PatternError)
deriving DecidableEq, Repr

namespace Profile

def valuesOfToml? (v : Toml.Value) : Option Values := do
  let entries ← (← v.table?).mapM fun (key, v) => return (key, ← v.string?)
  return .ofList entries

def field? (fields : List (String × Toml.Value)) (name : String) : Option Values :=
  (fields.lookup name).elim (some ∅) valuesOfToml?

def keyedOption (p : Profile) (entry : String × String) : Except PatternError Profile :=
  match Text.cutLast ':' entry.1 with
  | some (pattern, name) => p.scopedOption pattern name entry.2
  | none => .ok (p.option entry.1 entry.2)

def parse (content : String) : Except ProfileError Profile :=
  let tables? := do
    let fields ← Toml.parse? content
    return (← field? fields "settings", ← field? fields "options")
  match tables? with
  | none => .error .malformed
  | some (settings, options) =>
    (options.entries.foldlM keyedOption ⟨settings, []⟩).mapError .pattern

end Profile

end Provision
