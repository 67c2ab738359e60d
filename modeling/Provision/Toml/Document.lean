import Provision.Toml.Scalar

/-!
TOML documents. A document is read as sections, each with the assignments below its header, and
the sections are then entered one after the other into a tree. The tree remembers how each table
came about, since a table may be opened by a header only once, and keys with dots may only extend
tables that keys with dots have made.
-/

namespace Provision.Toml

open Reader

/-- A part of a document under construction. A table is implicit if only longer paths have named
it so far, and dotted if a key with dots has made it. -/
inductive Item
  | value (v : Value)
  | table (isImplicit isDotted : Bool) (entries : List (String × Item))
  | tables (elements : List (List (String × Item)))

abbrev Entries := List (String × Item)

mutual

def Item.toValue : Item → Value
  | .value v => v
  | .table _ _ entries => .table (entriesValue entries)
  | .tables elements => .array (elementsValue elements)

def entriesValue : List (String × Item) → List (String × Value)
  | [] => []
  | (key, item) :: rest => (key, item.toValue) :: entriesValue rest

def elementsValue : List (List (String × Item)) → List Value
  | [] => []
  | entries :: rest => .table (entriesValue entries) :: elementsValue rest

end

/-- Put an item under a key: in the place of the old item, or at the end. -/
def putItem (entries : Entries) (key : String) (item : Item) : Entries :=
  if entries.any (·.1 == key) then entries.map fun e => if e.1 == key then (key, item) else e
  else entries ++ [(key, item)]

/-- Change the table at a path, where tables that are missing on the way are made. Keys with dots
must not pass through a table that a header or braces have opened. The change is told whether the
table is a dotted one. -/
def updateAt (viaDots : Bool) (change : Bool → Entries → Option Entries) :
    (path : List String) → (isDotted : Bool) → Entries → Option Entries
  | [], isDotted, entries => change isDotted entries
  | key :: path, _, entries =>
    match entries.lookup key with
    | none => do
      let made ← updateAt viaDots change path viaDots []
      return putItem entries key (.table true viaDots made)
    | some (.value _) => none
    | some (.table isImplicit isDotted inner) =>
      if viaDots && !isImplicit then none
      else do
        let changed ← updateAt viaDots change path isDotted inner
        return putItem entries key (.table isImplicit isDotted changed)
    | some (.tables elements) => do
      let changed ← updateAt viaDots change path false (← elements.getLast?)
      return putItem entries key (.tables (elements.dropLast ++ [changed]))

/-- An assignment of a value to a key, whose last part is kept apart. -/
structure Assignment where
  path : List String
  key : String
  value : Value
deriving Repr

def assign (entries : Entries) (a : Assignment) : Option Entries :=
  let change := fun isDotted inner =>
    if isDotted == a.path.isEmpty || (inner.lookup a.key).isSome then none
    else some (inner ++ [(a.key, Item.value a.value)])
  updateAt true change a.path false entries

/-- What the assignments of a section belong to: a table, or a new element of an array of tables.
The last part of the path is kept apart. -/
inductive Header
  | table (path : List String) (key : String)
  | element (path : List String) (key : String)
deriving Repr

structure Section where
  header : Header
  assignments : List Assignment
deriving Repr

/-- Enter a section into the document. A table may be opened only if nothing but longer paths has
named it before; an element joins the elements that are already there. -/
def enterSection (root : Entries) (s : Section) : Option Entries :=
  match s.header with
  | .table path key =>
    let change := fun _ inner => do
      let opened ←
        match inner.lookup key with
        | none => some []
        | some (.table true false entries) => some entries
        | _ => none
      let filled ← s.assignments.foldlM assign opened
      return inner.filter (·.1 != key) ++ [(key, Item.table false false filled)]
    updateAt false change path false root
  | .element path key =>
    let change := fun _ inner => do
      let earlier ←
        match inner.lookup key with
        | none => some []
        | some (.tables elements) => some elements
        | _ => none
      let filled ← s.assignments.foldlM assign []
      return putItem inner key (.tables (earlier ++ [filled]))
    updateAt false change path false root

def inlineTable (assignments : List Assignment) : Option Value := do
  let entries ← assignments.foldlM assign []
  return .table (entriesValue entries)

def assignment (value : Reader Value) : Reader Assignment := do
  let parts ← key
  text "="
  lineBlanks
  return ⟨parts.dropLast, parts.getLastD "", ← value⟩

def array (value : Reader Value) : Reader Value := do
  text "["
  let elements ← option (separated (text ",") (spacing *> value <* spacing))
  if elements.isSome then
    let _ ← option (text ",")
  spacing
  text "]"
  return .array (elements.getD [])

def braces (value : Reader Value) : Reader Value := do
  text "\x7b"
  lineBlanks
  let assignments ← option (separated (text ",") (assignment value <* lineBlanks))
  lineBlanks
  text "\x7d"
  inlineTable (assignments.getD [])

/-- Read a value in which arrays and braces nest at most `depth` deep. -/
def value : (depth : Nat) → Reader Value
  | 0 => scalar
  | depth + 1 => scalar <|> array (value depth) <|> braces (value depth)

def header : Reader Header :=
  element <|> table
where
  element : Reader Header := do
    text "[["
    let parts ← key
    text "]]"
    lineEnd
    return .element parts.dropLast (parts.getLastD "")
  table : Reader Header := do
    text "["
    let parts ← key
    text "]"
    lineEnd
    return .table parts.dropLast (parts.getLastD "")

def assignments : Reader (List Assignment) := do
  blankLines
  many (assignment (value (nestingLimit - 1)) <* lineEnd <* blankLines)
where
  blankLines : Reader Unit := do
    lineBlanks
    let _ ← many ((newline <|> (comment *> (newline <|> atEnd))) *> lineBlanks)

/-- Read a document: the assignments before the first header, and the sections. -/
def document : Reader (List Assignment × List Section) := do
  let _ ← option (text "\ufeff")
  let first ← assignments
  let sections ← many do
    let header ← header
    return ⟨header, ← assignments⟩
  atEnd
  return (first, sections)

def parse? (s : String) : Option (List (String × Value)) := do
  let ((first, sections), _) ← document s.toList
  let root ← first.foldlM assign []
  let root ← sections.foldlM enterSection root
  return entriesValue root

end Provision.Toml
