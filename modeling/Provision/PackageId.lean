import Provision.Configuration
import Provision.Reference
import Provision.Sha256

/-!
Package identities. The identity of a configuration is the SHA-256 digest of its canonical text,
which lists the sections that are not empty and their values in key order. Backslashes, equals
signs, opening brackets and line breaks are escaped, so that no value can pass for another value
or for a section. An identity mode says how much of a dependency its dependents depend on.
-/

namespace Provision

/-- The characters that stand for one character of a key or value. -/
def escapeChar (c : Char) : List Char :=
  if c = '\\' then ['\\', '\\']
  else if c = '=' then ['\\', '=']
  else if c = '[' then ['\\', '[']
  else if c = '\n' then ['\\', 'n']
  else if c = '\r' then ['\\', 'r']
  else [c]

def escapeChars (cs : List Char) : List Char :=
  cs.flatMap escapeChar

namespace Configuration

def entryChars (entry : String × String) : List Char :=
  escapeChars entry.1.toList ++ '=' :: escapeChars entry.2.toList ++ ['\n']

/-- The lines of one section; a section without values has none. -/
def sectionChars (s : ConfigSection) (values : Values) : List Char :=
  if values.isEmpty then []
  else '[' :: s.text.toList ++ [']', '\n'] ++ values.entries.flatMap entryChars

/-- The text that identifies a configuration. -/
def canonicalText (c : Configuration) : String :=
  String.ofList (ConfigSection.all.flatMap fun s => sectionChars s (c.get s))

end Configuration

/-- The name of the identity scheme, which opens every hashed text. -/
def identityScheme : String := "kiln-package-id/2"

/-- The identity of a configuration: a digest, and the values that went into it. -/
structure PackageId where
  digest : String
  contributions : List (String × String)
deriving DecidableEq, Repr, Inhabited

namespace PackageId

def preimage (c : Configuration) : ByteArray :=
  (identityScheme ++ "\n" ++ c.canonicalText).toUTF8

def compute (c : Configuration) : PackageId :=
  ⟨Sha256.hexDigest (preimage c), c.fields⟩

instance : ToString PackageId := ⟨digest⟩

end PackageId

/-- How much of a dependency goes into the identities of its dependents. -/
inductive IdentityMode
  /-- Nothing. -/
  | unrelated
  /-- Name and major version, or the full triple before 1.0. -/
  | semver
  /-- Name, major and minor version. -/
  | minor
  /-- Name, major, minor and patch version. -/
  | patch
  /-- Name and version as written. -/
  | fullVersion
  /-- Name, version as written, and the identity of the dependency. -/
  | fullPackage
deriving DecidableEq, Repr, Inhabited

namespace IdentityMode

def text : IdentityMode → String
  | .unrelated => "unrelated_mode"
  | .semver => "semver_mode"
  | .minor => "minor_mode"
  | .patch => "patch_mode"
  | .fullVersion => "full_version_mode"
  | .fullPackage => "full_package_mode"

def all : List IdentityMode :=
  [.unrelated, .semver, .minor, .patch, .fullVersion, .fullPackage]

def ofText? (s : String) : Option IdentityMode :=
  all.find? (·.text == s)

def unknownMessage (s : String) : String :=
  "Unknown package_id mode: " ++ s

/-- The numbers of a version with placeholders for those that a mode leaves out. -/
def renderSemver (mode : IdentityMode) (v : Semver) : String :=
  let triple := toString v.major ++ "." ++ toString v.minor ++ "." ++ toString v.patch
  match mode with
  | .semver => if v.major = 0 then triple else toString v.major ++ ".Y.Z"
  | .minor => toString v.major ++ "." ++ toString v.minor ++ ".Z"
  | _ => triple

/-- The version as a mode sees it; a version without a semantic reading is seen as written. -/
def renderVersion (mode : IdentityMode) (v : Version) : String :=
  v.semver?.elim v.text mode.renderSemver

/-- What a dependency contributes to the identity of a dependent, given the identity of the
dependency if it has one. -/
def render (mode : IdentityMode) (dependency : Reference) (id? : Option PackageId) :
    Option String :=
  match mode with
  | .unrelated => none
  | .fullVersion => some dependency.text
  | .fullPackage => some (dependency.text ++ id?.elim "" fun id => ":" ++ id.digest)
  | .semver | .minor | .patch =>
    some (dependency.name.text ++ "/" ++ mode.renderVersion dependency.version)

instance : ToString IdentityMode := ⟨text⟩

end IdentityMode

end Provision
