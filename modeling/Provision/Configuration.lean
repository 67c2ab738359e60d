import Provision.OrderedMap
import Provision.Text.Basic

/-!
The configuration of a package: settings of the platform, options of the package, and the
contributions of its dependencies. Keys are flat texts, where a dot makes a sub-key; a path names
a section and a key in it.
-/

namespace Provision

abbrev Values := OrderedMap String String

namespace Values

/-- Whether `key` lies under `parent`: it continues it with a dot. -/
def isSubKey (parent key : String) : Bool :=
  (parent.toList ++ ['.']).isPrefixOf key.toList

def isKeyOrSubKey (parent key : String) : Bool :=
  key == parent || isSubKey parent key

theorem isKeyOrSubKey_iff {parent key : String} :
    isKeyOrSubKey parent key = true ↔ key = parent ∨ ∃ rest, key = parent ++ "." ++ rest := by
  rw [isKeyOrSubKey, isSubKey, Bool.or_eq_true, beq_iff_eq, List.isPrefixOf_iff_prefix]
  refine or_congr_right ⟨fun ⟨rest, h⟩ => ⟨String.ofList rest, ?_⟩, fun ⟨rest, h⟩ =>
    ⟨rest.toList, ?_⟩⟩
  · rw [← String.toList_inj]
    simp [← h]
  · simp [h]

/-- Whether there is a value under a key or one of its sub-keys. -/
def covers (values : Values) (key : String) : Bool :=
  values.keys.any (isKeyOrSubKey key)

def remove (values : Values) (key : String) : Values :=
  values.filter fun k _ => !isKeyOrSubKey key k

end Values

inductive ConfigSection
  | settings
  | options
  | requires
deriving DecidableEq, Repr

def ConfigSection.text : ConfigSection → String
  | .settings => "settings"
  | .options => "options"
  | .requires => "requires"

def ConfigSection.all : List ConfigSection := [.settings, .options, .requires]

def ConfigSection.ofText? (s : String) : Option ConfigSection :=
  all.find? (·.text == s)

structure Configuration where
  settings : Values
  options : Values
  requires : Values
deriving DecidableEq, Repr, Inhabited

namespace Configuration

def empty : Configuration := ⟨∅, ∅, ∅⟩

instance : EmptyCollection Configuration := ⟨empty⟩

def get (c : Configuration) : ConfigSection → Values
  | .settings => c.settings
  | .options => c.options
  | .requires => c.requires

def modify (c : Configuration) (s : ConfigSection) (f : Values → Values) : Configuration :=
  match s with
  | .settings => { c with settings := f c.settings }
  | .options => { c with options := f c.options }
  | .requires => { c with requires := f c.requires }

/-- The section and key that a path names. A path that does not begin with a section names a
setting. -/
def splitPath (path : String) : ConfigSection × String :=
  match ConfigSection.all.findSome? fun s => (Text.dropStart (s.text ++ ".") path).map (s, ·) with
  | some place => place
  | none => (.settings, path)

def value? (c : Configuration) (path : String) : Option String :=
  let (s, key) := splitPath path
  (c.get s).get? key

def set (c : Configuration) (path value : String) : Configuration :=
  let (s, key) := splitPath path
  c.modify s (·.insert key value)

def covers (c : Configuration) (path : String) : Bool :=
  let (s, key) := splitPath path
  (c.get s).covers key

def remove (c : Configuration) (path : String) : Configuration :=
  let (s, key) := splitPath path
  c.modify s (·.remove key)

def isEmpty (c : Configuration) : Bool :=
  ConfigSection.all.all fun s => (c.get s).isEmpty

def fields (c : Configuration) : List (String × String) :=
  ConfigSection.all.flatMap fun s =>
    (c.get s).entries.map fun (key, value) => (s.text ++ "." ++ key, value)

end Configuration

end Provision
