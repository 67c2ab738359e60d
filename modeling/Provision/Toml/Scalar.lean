import Provision.Toml.Value

/-!
The words of TOML: blanks, comments, keys, strings, numbers, booleans and dates. A reader takes
its word off the front of the characters and leaves the rest, or fails.
-/

namespace Provision.Toml

abbrev Reader := StateT (List Char) Option

namespace Reader

def looksAt (s : String) : Reader Bool := fun cs =>
  some (s.toList.isPrefixOf cs, cs)

def charThat (p : Char → Bool) : Reader Char
  | [] => none
  | c :: cs => if p c then some (c, cs) else none

def text (s : String) : Reader Unit := fun cs =>
  (s.toList.isPrefixOf? cs).map ((), ·)

def run (p : Char → Bool) : Reader (List Char) := fun cs =>
  some (cs.takeWhile p, cs.dropWhile p)

def run1 (p : Char → Bool) : Reader (List Char) := do
  let cs ← run p
  if cs.isEmpty then failure else return cs

/-- Read as often as possible, as long as something is taken off. -/
def many {α : Type} (r : Reader α) (cs : List Char) : Option (List α × List Char) :=
  match r cs with
  | none => some ([], cs)
  | some (a, rest) =>
    if rest.length < cs.length then (many r rest).map fun (as, rest) => (a :: as, rest)
    else some ([], cs)
termination_by cs.length

def option {α : Type} (r : Reader α) : Reader (Option α) :=
  (some <$> r) <|> pure none

def separated {α : Type} (separator : Reader Unit) (r : Reader α) : Reader (List α) := do
  let first ← r
  let rest ← many (separator *> r)
  return first :: rest

def exactly (p : Char → Bool) : (count : Nat) → Reader (List Char)
  | 0 => pure []
  | count + 1 => do
    let c ← charThat p
    return c :: (← exactly p count)

def atEnd : Reader Unit
  | [] => some ((), [])
  | _ => none

end Reader

open Reader

def isLineBlank (c : Char) : Bool := c == ' ' || c == '\t'

def isNonAscii (c : Char) : Bool := 0x80 ≤ c.toNat

def isLineChar (c : Char) : Bool :=
  c == '\t' || (0x20 ≤ c.toNat && c.toNat ≤ 0x7E) || isNonAscii c

def isBasicChar (c : Char) : Bool := isLineChar c && c != '"' && c != '\\'

def isLiteralChar (c : Char) : Bool := isLineChar c && c != '\''

def isBareKeyChar (c : Char) : Bool := c.isAlphanum || c == '_' || c == '-'

def isHexDigit (c : Char) : Bool :=
  c.isDigit || ('a'.val ≤ c.val && c.val ≤ 'f'.val) || ('A'.val ≤ c.val && c.val ≤ 'F'.val)

def hexValue (c : Char) : Nat :=
  if c.isDigit then c.toNat - '0'.toNat else c.toLower.toNat - 'a'.toNat + 10

def digitsIn (base : Nat) (digits : List Char) : Nat :=
  digits.foldl (fun n c => n * base + hexValue c) 0

def lineBlanks : Reader Unit := do
  let _ ← run isLineBlank

def newline : Reader Unit := text "\n" <|> text "\r\n"

def comment : Reader Unit := do
  text "#"
  let _ ← run isLineChar

/-- What may follow a complete line: blanks, a comment, and the end of the line. -/
def lineEnd : Reader Unit := do
  lineBlanks
  let _ ← option comment
  newline <|> atEnd

def spacing : Reader Unit := do
  let _ ← many ((do let _ ← run1 isLineBlank) <|> newline <|> comment)

/-- The character that an escape stands for, read after its backslash. -/
def escaped : Reader Char := do
  match ← charThat fun _ => true with
  | 'b' => return '\x08'
  | 'f' => return '\x0c'
  | 'n' => return '\n'
  | 'r' => return '\r'
  | 't' => return '\t'
  | '"' => return '"'
  | '\\' => return '\\'
  | 'u' => scalar (digitsIn 16 (← exactly isHexDigit 4))
  | 'U' => scalar (digitsIn 16 (← exactly isHexDigit 8))
  | _ => failure
where
  scalar (n : Nat) : Reader Char :=
    if n.isValidChar then pure (Char.ofNat n) else failure

def basicString : Reader String := do
  text "\""
  let parts ← many (run1 isBasicChar <|> (text "\\" *> ((fun c => [c]) <$> escaped)))
  text "\""
  return String.ofList parts.flatten

def literalString : Reader String := do
  text "'"
  let cs ← run isLiteralChar
  text "'"
  return String.ofList cs

/-- A backslash at the end of a line, which swallows all space up to the next character. -/
def joinedLines : Reader Unit := do
  text "\\"
  lineBlanks
  newline
  let _ ← many ((do let _ ← run1 isLineBlank) <|> newline)

/-- One or two quotes inside a string over several lines: they do not begin the closing three. -/
def innerQuotes (quote : Char) : Reader (List Char) := fun cs =>
  let quotes := cs.takeWhile (· == quote)
  if quotes.length = 1 ∨ quotes.length = 2 then some (quotes, cs.dropWhile (· == quote)) else none

/-- The closing three quotes, before which up to two more belong to the string. -/
def closingQuotes (quote : Char) : Reader (List Char) := fun cs =>
  let count := (cs.takeWhile (· == quote)).length
  if count < 3 then none
  else some (List.replicate (min (count - 3) 2) quote, cs.drop (min count 5))

/-- The rest of a string over several lines after its opening quotes. -/
def multilineBody (quote : Char) (content : Reader (List Char)) : Reader String := do
  let _ ← option newline
  let parts ← many (content <|> (newline *> pure ['\n']) <|> innerQuotes quote)
  let last ← closingQuotes quote
  return String.ofList (parts.flatten ++ last)

def multilineBasicString : Reader String := do
  text "\"\"\""
  multilineBody '"' <|
    run1 isBasicChar <|> (joinedLines *> pure []) <|> (text "\\" *> ((fun c => [c]) <$> escaped))

def multilineLiteralString : Reader String := do
  text "'''"
  multilineBody '\'' (run1 isLiteralChar)

def anyString : Reader String :=
  multilineBasicString <|> basicString <|> multilineLiteralString <|> literalString

def simpleKey : Reader String :=
  basicString <|> literalString <|> (String.ofList <$> run1 isBareKeyChar)

/-- The greatest number of parts of a key, and one more than the depth of nested values. -/
def nestingLimit : Nat := 80

def key : Reader (List String) := do
  let parts ← separated (text ".") (lineBlanks *> simpleKey <* lineBlanks)
  if parts.length < nestingLimit then return parts else failure

/-- Digits, where single underscores may stand between two of them. -/
def digits (isDigit : Char → Bool) : Reader (List Char) := do
  let first ← charThat isDigit
  let rest ← many (charThat isDigit <|> (text "_" *> charThat isDigit))
  return first :: rest

def sign : Reader (Option Char) :=
  option (charThat fun c => c == '+' || c == '-')

/-- A decimal number with its sign and without needless zeros: whether it is negative, and its
digits. -/
def decimal : Reader (Bool × List Char) := do
  let s ← sign
  let cs ← (do let _ ← charThat (· == '0'); pure ['0']) <|> digits Char.isDigit
  return (s == some '-', cs)

def integerBounds : Int × Int := (Int64.minValue.toInt, Int64.maxValue.toInt)

def bounded (n : Int) : Reader Value :=
  if integerBounds.1 ≤ n && n ≤ integerBounds.2 then pure (.integer n) else failure

/-- An integer: decimal, or hexadecimal, octal or binary after its mark. -/
def integer : Reader Value := do
  if ← looksAt "0x" then
    text "0x"
    bounded (digitsIn 16 (← digits isHexDigit))
  else if ← looksAt "0o" then
    text "0o"
    bounded (digitsIn 8 (← digits fun c => '0'.val ≤ c.val && c.val ≤ '7'.val))
  else if ← looksAt "0b" then
    text "0b"
    bounded (digitsIn 2 (← digits fun c => c == '0' || c == '1'))
  else
    let (negative, cs) ← decimal
    let n : Int := digitsIn 10 cs
    bounded (if negative then -n else n)

/-- Whether `mantissa · 10 ^ exponent`, rounded to double precision, is still finite. The order of
magnitude settles all but a few numbers without computing the power. -/
def isFiniteDecimal (mantissa : List Char) (exponent : Int) : Bool :=
  let significant := mantissa.dropWhile (· == '0')
  let magnitude : Int := significant.length + exponent
  if significant.isEmpty || magnitude ≤ 308 then true
  else if 309 < magnitude then false
  else
    let n := digitsIn 10 significant
    let bound := Nat.pow 2 1024 - Nat.pow 2 970
    if 0 ≤ exponent then n * Nat.pow 10 exponent.toNat < bound
    else n < bound * Nat.pow 10 (-exponent).toNat

/-- A float: a decimal number with a fraction or an exponent, infinity, or no number. A positive
number must be finite in double precision. -/
def float : Reader Value := number <|> special
where
  exponent : Reader Int := do
    let _ ← charThat fun c => c == 'e' || c == 'E'
    let s ← sign
    let n : Int := digitsIn 10 (← digits Char.isDigit)
    return if s == some '-' then -n else n
  fraction : Reader (List Char) := text "." *> digits Char.isDigit
  number : Reader Value := do
    let (negative, whole) ← decimal
    let part ← option fraction
    let power ← if part.isSome then (·.getD 0) <$> option exponent else exponent
    let places := part.getD []
    if negative || isFiniteDecimal (whole ++ places) (power - places.length) then return .float
    else failure
  special : Reader Value := do
    let _ ← sign
    text "inf" <|> text "nan"
    return .float

def fixedNumber (count least greatest : Nat) : Reader Nat := do
  let n := digitsIn 10 (← exactly Char.isDigit count)
  if least ≤ n && n ≤ greatest then return n else failure

def daysIn (year month : Nat) : Nat :=
  if month = 2 then
    if year % 4 = 0 ∧ (year % 100 ≠ 0 ∨ year % 400 = 0) then 29 else 28
  else if month = 4 ∨ month = 6 ∨ month = 9 ∨ month = 11 then 30
  else 31

def zeroPadded (width n : Nat) : String :=
  String.ofList (List.leftpad width '0' (Nat.toDigits 10 n))

def date : Reader String := do
  let year ← fixedNumber 4 0 9999
  text "-"
  let month ← fixedNumber 2 1 12
  text "-"
  let day ← fixedNumber 2 1 (daysIn year month)
  return zeroPadded 4 year ++ "-" ++ zeroPadded 2 month ++ "-" ++ zeroPadded 2 day

/-- A fraction of a second, in its normal form: nine digits at most, and no zero at the end. -/
def secondFraction (digits : List Char) : String :=
  let significant := ((digits.take 9).reverse.dropWhile (· == '0')).reverse
  if significant.isEmpty then "" else "." ++ String.ofList significant

def time : Reader String := do
  let hour ← fixedNumber 2 0 23
  text ":"
  let minute ← fixedNumber 2 0 59
  text ":"
  let second ← fixedNumber 2 0 60
  let fraction ← option (text "." *> run1 Char.isDigit)
  return zeroPadded 2 hour ++ ":" ++ zeroPadded 2 minute ++ ":" ++ zeroPadded 2 second ++
    secondFraction (fraction.getD [])

/-- The offset of a time from universal time, in its normal form. -/
def offset : Reader String :=
  ((text "Z" <|> text "z") *> pure "Z") <|> do
    let s ← charThat fun c => c == '+' || c == '-'
    let hour ← fixedNumber 2 0 23
    text ":"
    let minute ← fixedNumber 2 0 59
    let s := if hour = 0 ∧ minute = 0 then '+' else s
    return String.singleton s ++ zeroPadded 2 hour ++ ":" ++ zeroPadded 2 minute

def datetime : Reader Value := .datetime <$> (dated <|> time)
where
  clock : Reader String := do
    let _ ← charThat fun c => c == 'T' || c == 't' || c == ' '
    return "T" ++ (← time) ++ ((← option offset).getD "")
  dated : Reader String := do
    return (← date) ++ ((← option clock).getD "")

def scalar : Reader Value :=
  (.string <$> anyString) <|> datetime <|> float <|> integer <|>
    (text "true" *> pure (.boolean true)) <|> (text "false" *> pure (.boolean false))

end Provision.Toml
