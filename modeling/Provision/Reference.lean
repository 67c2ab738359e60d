import Provision.Glob.Matching
import Provision.Text.Basic
import Provision.Text.Lowercase
import Provision.Version

/-!
Package names and references. A name is kept in lowercase and without blanks around it; a
reference is a name and one concrete version, written `name/version`. References are ordered by
name and then by version. A pattern matches a reference if it matches its written form or its bare
name.
-/

namespace Provision

structure PackageName where
  text : String
deriving DecidableEq, Repr, Inhabited

namespace PackageName

def ofText (s : String) : PackageName :=
  ⟨Text.lowercase (Text.trim s)⟩

/-- Whether a name is a given text up to case; blanks around the text count. -/
def isText (name : PackageName) (s : String) : Bool :=
  name.text == Text.lowercase s

instance : Ord PackageName where
  compare := compareOn text

instance : Std.TransOrd PackageName :=
  inferInstanceAs (Std.TransCmp (compareOn _))

instance : Std.LawfulEqOrd PackageName where
  eq_of_compare {a b} h := by
    have htext : a.text = b.text := Std.LawfulEqOrd.eq_of_compare h
    cases a
    cases b
    simpa using htext

instance : ToString PackageName := ⟨text⟩

end PackageName

structure Reference where
  name : PackageName
  version : Version
deriving DecidableEq, Repr, Inhabited

inductive ReferenceError
  | missingVersion (input : String)
  | emptyPart (input : String)
deriving DecidableEq, Repr

def ReferenceError.message : ReferenceError → String
  | .missingVersion input => "Invalid reference '" ++ input ++ "': expected 'name/version'"
  | .emptyPart input => "Invalid reference '" ++ input ++ "': empty name or version"

namespace Reference

def ofTexts (name version : String) : Reference :=
  ⟨.ofText name, .ofText version⟩

def text (r : Reference) : String :=
  r.name.text ++ "/" ++ r.version.text

def parse (s : String) : Except ReferenceError Reference :=
  match Text.cutFirst '/' s with
  | none => .error (.missingVersion s)
  | some (name, version) =>
    if Text.isBlankText name || Text.isBlankText version then .error (.emptyPart s)
    else .ok (ofTexts name version)

instance : Ord Reference where
  compare := compareLex (compareOn name) (compareOn version)

instance : Std.TransOrd Reference :=
  inferInstanceAs (Std.TransCmp (compareLex _ _))

instance : Std.LawfulEqOrd Reference where
  eq_of_compare {a b} h := by
    obtain ⟨hname, hversion⟩ := compareLex_eq_eq.mp h
    have hname : a.name = b.name := Std.LawfulEqOrd.eq_of_compare hname
    have hversion : a.version = b.version := Std.LawfulEqOrd.eq_of_compare hversion
    cases a
    cases b
    simp_all

instance : ToString Reference := ⟨text⟩

end Reference

structure ReferencePattern where
  glob : Glob.Pattern
deriving DecidableEq, Repr

structure PatternError where
  pattern : String
  reason : Glob.SyntaxError
deriving DecidableEq, Repr

def PatternError.message (e : PatternError) : String :=
  "Invalid pattern '" ++ e.pattern ++ "': " ++ e.reason.message

namespace ReferencePattern

def parse (s : String) : Except PatternError ReferencePattern :=
  match Glob.Pattern.parse (Text.trim s) with
  | .ok glob => .ok ⟨glob⟩
  | .error reason => .error ⟨s, reason⟩

def isMatch (p : ReferencePattern) (r : Reference) : Bool :=
  p.glob.isMatch r.text || p.glob.isMatch r.name.text

def text (p : ReferencePattern) : String :=
  p.glob.text

end ReferencePattern

end Provision
