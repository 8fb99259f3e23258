import BlobCache.Config.Toml.Text
import BlobCache.Config.Value
import BlobCache.Word

/-!
# Numbers and times in TOML

Whole numbers have 64 bits and a sign; in decimal they have no leading zeros,
and in every base single underscores may stand between digits.  Numbers with a
point or an exponent are real.  Dates and times have to exist in the calendar
and on the clock; as a value they are a dictionary, which no setting takes.
-/

namespace BlobCache.Toml

open Reader

/-! ## Digits -/

/-- At least one digit, with single underscores between digits. -/
def digits (isDigit : Char → Bool) : Reader (List Char) := do
  let first ← next
  if !isDigit first then failure
  let rest ← collect do
    let marked ← accept "_"
    match ← peek with
    | some c => if isDigit c then some <$> next else if marked then failure else return none
    | none => if marked then failure else return none
  return first :: rest

/-- The sign of a number: whether it is negative. -/
def sign : Reader Bool := do
  if ← accept "-" then return true
  let _ ← accept "+"
  return false

/-- The digits of a decimal number without leading zeros. -/
def decimalDigits : Reader (List Char) := do
  let ds ← digits Char.isDigit
  if ds.head? = some '0' && 1 < ds.length then failure else return ds

/-! ## Numbers -/

def wholeNumber (negative : Bool) (n : Nat) : Reader Value :=
  let value : Int := if negative then -n else n
  if Fits value then return .integer value else failure

/-- A number in another base, whose mark has been read. -/
def based (base : Nat) : Reader Value := do
  let ds ← digits fun c => (digitValue? base c).isSome
  wholeNumber false ((number? base ds).getD 0)

/-- A number in decimal: real if it has a point or an exponent. -/
def decimal : Reader Value := do
  let negative ← sign
  if ← accept "inf" then return .real
  if ← accept "nan" then return .real
  let whole ← decimalDigits
  let fraction ← if ← accept "." then digits Char.isDigit else pure []
  let small ← accept "e"
  let marked ← if small then pure true else accept "E"
  let power : Int ←
    if marked then do
      let down ← sign
      let n := (number? 10 (← digits Char.isDigit)).getD 0
      pure (if down then -n else n)
    else pure 0
  let mantissa := (number? 10 (whole ++ fraction)).getD 0
  if fraction.isEmpty && !marked then wholeNumber negative mantissa
  else if !negative && exceedsDouble mantissa (power - fraction.length) then failure
  else return .real

def number : Reader Value := do
  if ← accept "0x" then based 16
  else if ← accept "0o" then based 8
  else if ← accept "0b" then based 2
  else decimal

/-! ## Dates and times -/

/-- A number of exactly `count` digits between two bounds. -/
def field (count low high : Nat) : Reader Nat := do
  let n ← number? 10 (← take count)
  if low ≤ n && n ≤ high then return n else failure

def isLeapYear (year : Nat) : Bool :=
  year % 4 = 0 && (year % 100 ≠ 0 || year % 400 = 0)

def daysIn (year month : Nat) : Nat :=
  if month = 2 then (if isLeapYear year then 29 else 28)
  else if month = 4 || month = 6 || month = 9 || month = 11 then 30
  else 31

def date : Reader Unit := do
  let year ← field 4 0 9999
  expect "-"
  let month ← field 2 1 12
  expect "-"
  let _ ← field 2 1 (daysIn year month)

def time : Reader Unit := do
  let _ ← field 2 0 23
  expect ":"
  let _ ← field 2 0 59
  expect ":"
  let _ ← field 2 0 60
  if ← accept "." then
    let _ ← takeSome Char.isDigit

/-- How far a clock is from that of Greenwich. -/
def offset : Reader Unit := do
  match ← next with
  | 'Z' | 'z' => return ()
  | '+' | '-' =>
    let _ ← field 2 0 23
    expect ":"
    let _ ← field 2 0 59
  | _ => failure

def timeOfDay : Reader Unit := do
  match ← next with
  | 'T' | 't' | ' ' =>
    time
    let _ ← attempt offset
  | _ => failure

/-- A date, a time, or both. -/
def dateTime : Reader Value := do
  (do date; let _ ← attempt timeOfDay) <|> time
  return .dict []

end BlobCache.Toml
