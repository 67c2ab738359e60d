/-!
Values of TOML documents, and the views that readers of a document take of them. Tables keep
their keys in the order of the document.
-/

namespace Provision.Toml

/-- A value of a document. Floats keep no content, since nothing reads one; dates and times keep
their normal form. -/
inductive Value
  | string (s : String)
  | integer (n : Int)
  | float
  | boolean (b : Bool)
  | datetime (text : String)
  | array (elements : List Value)
  | table (entries : List (String × Value))
deriving Repr, Inhabited

namespace Value

def string? : Value → Option String
  | .string s => some s
  | _ => none

def boolean? : Value → Option Bool
  | .boolean b => some b
  | _ => none

def array? : Value → Option (List Value)
  | .array elements => some elements
  | _ => none

/-- The key that the normal form of a date has where a date is read as a table. -/
def dateKey : String := "$__toml_private_datetime"

/-- The entries of a table. A date is a table with a single entry. -/
def table? : Value → Option (List (String × Value))
  | .table entries => some entries
  | .datetime s => some [(dateKey, .string s)]
  | _ => none

/-- The fields of a record with the given field names. A record is a table, or an array that
lists the fields in their order. -/
def record? (names : List String) : Value → Option (List (String × Value))
  | .array elements => some (names.zip elements)
  | v => v.table?

/-- The name of a constant: a string, or a table whose only key is the name and has an empty table
or an empty array under it. -/
def constant? : Value → Option String
  | .string s => some s
  | .table [(name, .table [])] => some name
  | .table [(name, .array [])] => some name
  | _ => none

def strings? (v : Value) : Option (List String) := do
  (← v.array?).mapM string?

end Value

end Provision.Toml
