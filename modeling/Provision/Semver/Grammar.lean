import Provision.Semver.Basic
import Provision.Text.Quoted

/-!
The written form of semantic versions, and the pieces of it that version ranges share: numbers
and dotted identifiers. Each piece is read off the front of a list of characters and returns what
follows it; a failure names the part of the version that was being read.
-/

namespace Provision.Semver

inductive Part
  | major
  | minor
  | patch
  | pre
  | build
deriving DecidableEq, Repr

def Part.description : Part → String
  | .major => "major version number"
  | .minor => "minor version number"
  | .patch => "patch version number"
  | .pre => "pre-release identifier"
  | .build => "build metadata"

inductive SyntaxError
  | unexpectedEnd (part : Part)
  | unexpectedChar (part : Part) (found : Char)
  | expectedComma (part : Part) (found : Char)
  | leadingZero (part : Part)
  | overflow (part : Part)
  | emptySegment (part : Part)
  | wildcardNotAlone (wildcard : Char)
  | unexpectedAfterWildcard
  | tooManyComparators
deriving DecidableEq, Repr

def SyntaxError.message : SyntaxError → String
  | .unexpectedEnd part => "unexpected end of input while parsing " ++ part.description
  | .unexpectedChar part c =>
    "unexpected character " ++ Text.quoted c ++ " while parsing " ++ part.description
  | .expectedComma part c =>
    "expected comma after " ++ part.description ++ ", found " ++ Text.quoted c
  | .leadingZero part => "invalid leading zero in " ++ part.description
  | .overflow part => "value of " ++ part.description ++ " exceeds u64::MAX"
  | .emptySegment part => "empty identifier segment in " ++ part.description
  | .wildcardNotAlone c =>
    "wildcard req (" ++ String.singleton c ++ ") must be the only comparator in the version req"
  | .unexpectedAfterWildcard => "unexpected character after wildcard in version req"
  | .tooManyComparators => "excessive number of version comparators"

def maxNumber : Nat := UInt64.size - 1

/-- Read a number: decimal digits without a leading zero, at most `maxNumber`. -/
def number (part : Part) (cs : List Char) : Except SyntaxError (Nat × List Char) :=
  let rest := cs.dropWhile Char.isDigit
  match cs.takeWhile Char.isDigit with
  | [] =>
    match rest with
    | [] => .error (.unexpectedEnd part)
    | c :: _ => .error (.unexpectedChar part c)
  | d :: ds =>
    if d = '0' ∧ ds ≠ [] then .error (.leadingZero part)
    else if maxNumber < digitsValue (d :: ds) then .error (.overflow part)
    else .ok (digitsValue (d :: ds), rest)

def isIdentifierChar (c : Char) : Bool :=
  c.isAlphanum || c == '-'

/-- Check one segment of dotted identifiers: it must not be empty, and a number in a pre-release
must not start with a needless zero. -/
def checkSegment (part : Part) (segment : List Char) : Except SyntaxError Unit :=
  if segment.isEmpty then .error (.emptySegment part)
  else if part = .pre ∧ segment.all Char.isDigit ∧ 1 < segment.length ∧ segment.head? = some '0' then
    .error (.leadingZero part)
  else .ok ()

/-- Read dotted identifiers: the longest run of identifier characters and dots, whose segments
are checked from left to right. -/
def identifiers (part : Part) (cs : List Char) : Except SyntaxError (List String × List Char) := do
  let inRun := fun c => isIdentifierChar c || c == '.'
  let segments := (cs.takeWhile inRun).splitOn '.'
  segments.forM (checkSegment part)
  return (segments.map String.ofList, cs.dropWhile inRun)

def markedIdentifiers (mark : Char) (part : Part) :
    List Char → Except SyntaxError (List String × List Char)
  | c :: rest => if c = mark then identifiers part rest else .ok ([], c :: rest)
  | [] => .ok ([], [])

def dot : List Char → Option (List Char)
  | '.' :: rest => some rest
  | _ => none

/-- The version written as `major.minor.patch`, with an optional pre-release after a hyphen and
optional build metadata after a plus sign. -/
def parse? (cs : List Char) : Option Semver := do
  let (major, cs) ← (number .major cs).toOption
  let cs ← dot cs
  let (minor, cs) ← (number .minor cs).toOption
  let cs ← dot cs
  let (patch, cs) ← (number .patch cs).toOption
  let (pre, cs) ← (markedIdentifiers '-' .pre cs).toOption
  let (build, cs) ← (markedIdentifiers '+' .build cs).toOption
  if cs.isEmpty then some ⟨major, minor, patch, pre, build⟩ else none

end Provision.Semver
