import Provision.Semver.Grammar

/-!
Version ranges: conjunctions of comparators. A comparator names an operator and a version of
which the later numbers may be missing. Main definitions: `Range.parse` reads a range,
`Range.text` writes one, and `Range.contains` decides membership. A version with a pre-release
belongs to a range only if some comparator with the same three numbers has a pre-release too.
-/

namespace Provision.Semver

/-- How a comparator relates a version to its own. -/
inductive Operator
  | exact
  | greater
  | greaterEq
  | less
  | lessEq
  | tilde
  | caret
  | wildcard
deriving DecidableEq, Repr

/-- One condition of a range. A missing minor number leaves the patch number missing too, and
only a full triple has a pre-release. -/
structure Comparator where
  op : Operator
  major : Nat
  minor : Option Nat
  patch : Option Nat
  pre : List String
deriving DecidableEq, Repr

structure Range where
  comparators : List Comparator
deriving DecidableEq, Repr

def Operator.text : Operator → String
  | .exact => "="
  | .greater => ">"
  | .greaterEq => ">="
  | .less => "<"
  | .lessEq => "<="
  | .tilde => "~"
  | .caret => "^"
  | .wildcard => ""

def Comparator.text (c : Comparator) : String :=
  c.op.text ++ toString c.major ++
    match c.minor, c.patch with
    | none, _ => wildcardText
    | some minor, none => "." ++ toString minor ++ wildcardText
    | some minor, some patch =>
      "." ++ toString minor ++ "." ++ toString patch ++
        if c.pre.isEmpty then "" else "-" ++ dotted c.pre
where
  wildcardText : String := if c.op = .wildcard then ".*" else ""

def Range.text (r : Range) : String :=
  if r.comparators.isEmpty then "*" else ", ".intercalate (r.comparators.map Comparator.text)

namespace Comparator

/-- The version has the given numbers and the same pre-release. -/
def matchesExact (c : Comparator) (v : Semver) : Bool :=
  v.major == c.major && c.minor.all (v.minor == ·) && c.patch.all (v.patch == ·) && v.pre == c.pre

/-- The version is greater at the first given number that differs, or else in its pre-release; a
missing number leaves nothing that is greater. -/
def matchesGreater (c : Comparator) (v : Semver) : Bool :=
  if v.major ≠ c.major then c.major < v.major
  else
    match c.minor with
    | none => false
    | some minor =>
      if v.minor ≠ minor then minor < v.minor
      else
        match c.patch with
        | none => false
        | some patch =>
          if v.patch ≠ patch then patch < v.patch else (comparePre v.pre c.pre).isGT

/-- The version is less at the first given number that differs, or else in its pre-release; a
missing number leaves nothing that is less. -/
def matchesLess (c : Comparator) (v : Semver) : Bool :=
  if v.major ≠ c.major then v.major < c.major
  else
    match c.minor with
    | none => false
    | some minor =>
      if v.minor ≠ minor then v.minor < minor
      else
        match c.patch with
        | none => false
        | some patch =>
          if v.patch ≠ patch then v.patch < patch else (comparePre v.pre c.pre).isLT

/-- The version agrees in the major and minor number and is not less in the rest. -/
def matchesTilde (c : Comparator) (v : Semver) : Bool :=
  v.major == c.major && c.minor.all (v.minor == ·) &&
    match c.patch with
    | some patch => if v.patch ≠ patch then patch < v.patch else (comparePre v.pre c.pre).isGE
    | none => (comparePre v.pre c.pre).isGE

/-- The version agrees up to the first given number that is not zero and is not less in the
rest. -/
def matchesCaret (c : Comparator) (v : Semver) : Bool :=
  v.major == c.major &&
    match c.minor, c.patch with
    | none, _ => true
    | some minor, none => if 0 < c.major then minor ≤ v.minor else v.minor == minor
    | some minor, some patch =>
      if 0 < c.major then
        if v.minor ≠ minor then minor < v.minor
        else if v.patch ≠ patch then patch < v.patch
        else (comparePre v.pre c.pre).isGE
      else if 0 < minor then
        if v.minor ≠ minor then false
        else if v.patch ≠ patch then patch < v.patch
        else (comparePre v.pre c.pre).isGE
      else v.minor == minor && v.patch == patch && (comparePre v.pre c.pre).isGE

/-- Whether a version satisfies a comparator, pre-releases included. -/
def isSatisfied (c : Comparator) (v : Semver) : Bool :=
  match c.op with
  | .exact | .wildcard => c.matchesExact v
  | .greater => c.matchesGreater v
  | .greaterEq => c.matchesExact v || c.matchesGreater v
  | .less => c.matchesLess v
  | .lessEq => c.matchesExact v || c.matchesLess v
  | .tilde => c.matchesTilde v
  | .caret => c.matchesCaret v

/-- Whether a comparator admits pre-releases of this version: it has a pre-release itself, and the
same three numbers. -/
def admitsPre (c : Comparator) (v : Semver) : Bool :=
  c.major == v.major && c.minor == some v.minor && c.patch == some v.patch && !c.pre.isEmpty

end Comparator

def Range.contains (r : Range) (v : Semver) : Bool :=
  r.comparators.all (·.isSatisfied v) && (v.pre.isEmpty || r.comparators.any (·.admitsPre v))

def dropSpaces (cs : List Char) : List Char :=
  cs.dropWhile (· = ' ')

/-- Whether a character stands for a missing number. -/
def isWildcard (c : Char) : Bool :=
  c == '*' || c == 'x' || c == 'X'

/-- Read an operator; a comparator without one is a caret, and becomes a wildcard comparator if it
has a wildcard. -/
def readOperator : List Char → Option Operator × List Char
  | '=' :: rest => (some .exact, rest)
  | '>' :: '=' :: rest => (some .greaterEq, rest)
  | '>' :: rest => (some .greater, rest)
  | '<' :: '=' :: rest => (some .lessEq, rest)
  | '<' :: rest => (some .less, rest)
  | '~' :: rest => (some .tilde, rest)
  | '^' :: rest => (some .caret, rest)
  | cs => (none, cs)

inductive Component
  | missing
  | wildcard
  | value (n : Nat)
deriving DecidableEq, Repr

def Component.value? : Component → Option Nat
  | .value n => some n
  | _ => none

/-- Read a dot and the number or wildcard after it, if a dot comes next. After a wildcard only
another wildcard may follow. -/
def component (part : Part) (afterWildcard : Bool) :
    List Char → Except SyntaxError (Component × List Char)
  | '.' :: rest =>
    if rest.head?.any isWildcard then .ok (.wildcard, rest.tail)
    else if afterWildcard then .error .unexpectedAfterWildcard
    else do
      let (n, rest) ← number part rest
      return (.value n, rest)
  | cs => .ok (.missing, cs)

/-- A comparator as read: the comparator, the last part that was read, and what follows. -/
structure ReadComparator where
  comparator : Comparator
  lastPart : Part
  rest : List Char
deriving DecidableEq, Repr

/-- Read one comparator. A pre-release and build metadata belong to a full triple only, and build
metadata is dropped. -/
def readComparator (cs : List Char) : Except SyntaxError ReadComparator := do
  let (op, cs) := readOperator cs
  let (major, cs) ← number .major (dropSpaces cs)
  let (minor, cs) ← component .minor false cs
  let (patch, cs) ← component .patch (minor = .wildcard) cs
  let numbersEnd : Part :=
    if patch ≠ .missing then .patch else if minor ≠ .missing then .minor else .major
  let op := op.getD <| if minor = .wildcard ∨ patch = .wildcard then .wildcard else .caret
  if patch.value?.isNone then
    return ⟨⟨op, major, minor.value?, none, []⟩, numbersEnd, dropSpaces cs⟩
  let (pre, afterPre) ← markedIdentifiers '-' .pre cs
  let (build, rest) ← markedIdentifiers '+' .build afterPre
  let lastPart : Part :=
    if !build.isEmpty then .build else if !pre.isEmpty then .pre else numbersEnd
  return ⟨⟨op, major, minor.value?, patch.value?, pre⟩, lastPart, dropSpaces rest⟩

/-- Whether a list of characters is a wildcard that is followed by a comma or by nothing. -/
def loneWildcard : List Char → Option Char
  | c :: rest =>
    if isWildcard c && (dropSpaces rest).head?.all (· == ',') then some c else none
  | [] => none

/-- Read comparators between commas, where `spare` more may follow the first. -/
def readComparators (spare : Nat) (cs : List Char) : Except SyntaxError (List Comparator) :=
  match readComparator cs with
  | .error e => .error ((loneWildcard cs).elim e .wildcardNotAlone)
  | .ok read =>
    match read.rest, spare with
    | [], _ => .ok [read.comparator]
    | ',' :: _, 0 => .error .tooManyComparators
    | ',' :: rest, spare + 1 =>
      (read.comparator :: ·) <$> readComparators spare (dropSpaces rest)
    | c :: _, _ => .error (.expectedComma read.lastPart c)

def maxComparators : Nat := 32

/-- Read a range: a lone wildcard, or comparators between commas. -/
def Range.parse (cs : List Char) : Except SyntaxError Range :=
  match dropSpaces cs with
  | [] => Range.mk <$> readComparators (maxComparators - 1) []
  | c :: rest =>
    if isWildcard c then
      match dropSpaces rest with
      | [] => .ok ⟨[]⟩
      | d :: _ => .error (if d = ',' then .wildcardNotAlone c else .unexpectedAfterWildcard)
    else Range.mk <$> readComparators (maxComparators - 1) (c :: rest)

end Provision.Semver
