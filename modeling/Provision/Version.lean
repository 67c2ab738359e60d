import Provision.Semver.Grammar
import Provision.Text.Basic

/-!
Package versions. A version is the text that a package author wrote; where the text can be read
as a semantic version, possibly with the minor and patch number left out, that reading decides
order and matching. Versions without such a reading come before all others and compare as texts.
-/

namespace Provision

structure Version where
  text : String
deriving DecidableEq, Repr, Inhabited

namespace Version

def ofText (s : String) : Version :=
  ⟨Text.trim s⟩

/-- The characters before the first hyphen or plus sign, and those from it on. -/
def splitCore (cs : List Char) : List Char × List Char :=
  cs.span fun c => c ≠ '-' && c ≠ '+'

/-- Fill the missing numbers of a core of one or two numbers with zeros. -/
def padded (cs : List Char) : Option (List Char) :=
  let (core, rest) := splitCore cs
  match core.count '.' with
  | 0 => some (core ++ ".0.0".toList ++ rest)
  | 1 => some (core ++ ".0".toList ++ rest)
  | _ => none

/-- Read a list of characters as a semantic version, as it stands or with its core filled up. -/
def readSemver (cs : List Char) : Option Semver :=
  Semver.parse? cs <|> (padded cs).bind Semver.parse?

def semver? (v : Version) : Option Semver :=
  readSemver v.text.toList

/-- Order by semantic reading, where no reading comes first, and then by text. -/
instance : Ord Version where
  compare := compareLex (compareOn semver?) (compareOn text)

instance : Std.TransOrd Version :=
  inferInstanceAs (Std.TransCmp (compareLex _ _))

instance : Std.LawfulEqOrd Version where
  eq_of_compare {a b} h := by
    have htext : a.text = b.text := Std.LawfulEqOrd.eq_of_compare (compareLex_eq_eq.mp h).2
    cases a
    cases b
    simpa using htext

instance : ToString Version := ⟨text⟩

end Version

end Provision
