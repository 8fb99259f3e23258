import BlobCache.Config.Reader
import BlobCache.Config.Value
import BlobCache.Word

/-!
# JSON

A strict reader for JSON: no comments, no trailing commas, no leading zeros, no
control characters in strings, and surrogate escapes only in pairs.  Of a
repeated key the last value counts.  A number is an integer if it is written as
one, is not negative zero and fits into 64 bits; every other number is real,
and must be one that a double can come near to.
-/

namespace BlobCache.Json

open Reader

/-- How deeply arrays and objects may lie in each other. -/
def nesting : Nat := 127

def isSpace (c : Char) : Bool := c = ' ' || c = '\n' || c = '\t' || c = '\r'

def spaces : Reader Unit := skip isSpace

/-! ## Strings -/

def fourHex : Reader Nat := do
  match number? 16 (← take 4) with
  | some n => return n
  | none => failure

/-- What follows `\u`: a code point, or the two halves of one. -/
def unicodeEscape : Reader Char := do
  let first ← fourHex
  let code ←
    if 0xd800 ≤ first && first < 0xdc00 then do
      expect "\\u"
      let second ← fourHex
      if 0xdc00 ≤ second && second < 0xe000 then
        pure (0x10000 + (first - 0xd800) * 0x400 + (second - 0xdc00))
      else failure
    else pure first
  match scalar? code with
  | some c => return c
  | none => failure

/-- What follows a backslash. -/
def escape : Reader Char := do
  match ← next with
  | '"' => return '"'
  | '\\' => return '\\'
  | '/' => return '/'
  | 'b' => return '\x08'
  | 'f' => return '\x0c'
  | 'n' => return '\n'
  | 'r' => return '\r'
  | 't' => return '\t'
  | 'u' => unicodeEscape
  | _ => failure

/-- A string in double quotes. -/
def string : Reader String := do
  expect "\""
  let cs ← collect do
    match ← next with
    | '"' => return none
    | '\\' => return some (← escape)
    | c => if c.toNat < 0x20 then failure else return some c
  return String.ofList cs

/-! ## Numbers -/

/-- The integer part: no digit follows a leading zero. -/
def wholeDigits : Reader (List Char) := do
  let ds ← takeSome Char.isDigit
  if ds.head? = some '0' && 1 < ds.length then failure else return ds

def fractionDigits : Reader (List Char) := do
  if ← accept "." then takeSome Char.isDigit else return []

/-- The exponent, if there is one. -/
def exponent : Reader (Option Int) := do
  let small ← accept "e"
  let marked ← if small then pure true else accept "E"
  if marked then
    let negative ← accept "-"
    if !negative then let _ ← accept "+"
    let ds ← takeSome Char.isDigit
    let n := (number? 10 ds).getD 0
    return some (if negative then -n else n)
  else return none

def number : Reader Value := do
  let negative ← accept "-"
  let whole ← wholeDigits
  let fraction ← fractionDigits
  let power ← exponent
  let mantissa := (number? 10 (whole ++ fraction)).getD 0
  let integral := fraction.isEmpty && power.isNone
  if integral && !negative && mantissa ≤ wordMax then
    return .integer mantissa
  else if integral && negative && 0 < mantissa && smallest ≤ -mantissa then
    return .integer (-mantissa)
  else if exceedsDouble mantissa (power.getD 0 - fraction.length) then failure
  else return .real

/-! ## Values -/

/-- A list in brackets whose opening one has been read, with commas between the
items. -/
def listed {α : Type} (close : String) (item : Reader α) : Reader (List α) := do
  spaces
  if ← accept close then return []
  let first ← item
  let rest ← collect do
    spaces
    if ← accept "," then
      spaces
      return some (← item)
    expect close
    return none
  return first :: rest

/-- A key with its value. -/
def member (value : Reader Value) : Reader (String × Value) := do
  let key ← string
  spaces
  expect ":"
  spaces
  return (key, ← value)

/-- The fields with the last value of each key. -/
def collectFields (members : List (String × Value)) : Fields :=
  members.foldl (fun fields (key, value) => fields.put key value) []

/-- A value that holds no other. -/
def scalar : Reader Value := do
  match ← peek with
  | some '"' => return .text (← string)
  | some 't' => expect "true"; return .bool true
  | some 'f' => expect "false"; return .bool false
  | some 'n' => expect "null"; return .null
  | _ => number

/-- A value in which arrays and objects lie at most `depth` deep. -/
def value : (depth : Nat) → Reader Value
  | 0 => scalar
  | inner + 1 => do
    if ← accept "[" then return .list (← listed "]" (value inner))
    if ← accept "\x7b" then
      return .dict (collectFields (← listed "\x7d" (member (value inner))))
    scalar

/-- A text that holds one value and blanks around it. -/
def document : Reader Value := do
  spaces
  let v ← value nesting
  spaces
  return v

/-- The fields of a text that holds one object. -/
def fields? (text : String) : Option Fields :=
  match document.all? text.toList with
  | some (.dict fields) => some fields
  | _ => none

end BlobCache.Json
