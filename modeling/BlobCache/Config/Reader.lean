/-!
# Reading text from the front

A reader takes something off the front of a text or fails.  Alternatives start
over where the first one started.  A repetition (`Reader.collect`) goes on
until its step says so; since every round of it is to consume something, it
needs no more rounds than there are characters, and fails if it asks for more.
-/

namespace BlobCache

/-- Do `step` until it answers `none`, at most `rounds` times, and collect what
it answers. -/
def collectWithin {σ α : Type} (step : StateT σ Option (Option α)) :
    (rounds : Nat) → StateT σ Option (List α)
  | 0 => failure
  | rounds + 1 => do
    match ← step with
    | none => return []
    | some a => return a :: (← collectWithin step rounds)

/-- Reads an `α` off the front of a text. -/
abbrev Reader (α : Type) := StateT (List Char) Option α

namespace Reader

variable {α : Type}

/-- What the reader makes of the whole of `text`. -/
def all? (reader : Reader α) (text : List Char) : Option α :=
  match reader.run text with
  | some (a, []) => some a
  | _ => none

/-- The next character, left where it is. -/
def peek : Reader (Option Char) := fun cs => some (cs.head?, cs)

/-- The characters still to be read. -/
def ahead : Reader (List Char) := fun cs => some (cs, cs)

/-- Take one character. -/
def next : Reader Char
  | c :: cs => some (c, cs)
  | [] => none

/-- Take exactly this many characters. -/
def take (n : Nat) : Reader (List Char) := fun cs =>
  if n ≤ cs.length then some (cs.take n, cs.drop n) else none

/-- Take characters as long as they satisfy `p`. -/
def takeWhile (p : Char → Bool) : Reader (List Char) := fun cs =>
  some (cs.takeWhile p, cs.dropWhile p)

/-- Take at least one character that satisfies `p`. -/
def takeSome (p : Char → Bool) : Reader (List Char) := do
  let cs ← takeWhile p
  if cs.isEmpty then failure else return cs

/-- Pass over characters as long as they satisfy `p`. -/
def skip (p : Char → Bool) : Reader Unit := fun cs => some ((), cs.dropWhile p)

/-- Take `word` if it comes next. -/
def accept (word : String) : Reader Bool := fun cs =>
  if word.toList.isPrefixOf cs then some (true, cs.drop word.length) else some (false, cs)

/-- Take `word`, which has to come next. -/
def expect (word : String) : Reader Unit := do
  if !(← accept word) then failure

/-- Whether nothing is left. -/
def atEnd : Reader Bool := fun cs => some (cs.isEmpty, cs)

/-- Read with `reader` or leave everything where it is. -/
def attempt (reader : Reader α) : Reader (Option α) :=
  (some <$> reader) <|> pure none

/-- Read with `step` until it answers `none`. -/
def collect (step : Reader (Option α)) : Reader (List α) := fun cs =>
  collectWithin step (cs.length + 1) cs

end Reader

/-! ## Digits and characters -/

/-- The value of a digit in a base up to sixteen. -/
def digitValue? (base : Nat) (c : Char) : Option Nat :=
  let value :=
    if c.isDigit then c.toNat - '0'.toNat
    else if 'a' ≤ c && c ≤ 'f' then c.toNat - 'a'.toNat + 10
    else if 'A' ≤ c && c ≤ 'F' then c.toNat - 'A'.toNat + 10
    else base
  if value < base then some value else none

/-- The number that digits write, if there are any and all of them are digits
of the base. -/
def number? (base : Nat) (digits : List Char) : Option Nat :=
  if digits.isEmpty then none
  else digits.foldlM (fun n c => (digitValue? base c).map (n * base + ·)) 0

/-- The character with this code point. -/
def scalar? (n : Nat) : Option Char :=
  if h : n.isValidChar then some (Char.ofNatAux n h) else none

/-- White space of any script. -/
def isBlank (c : Char) : Bool :=
  let n := c.toNat
  (0x09 ≤ n && n ≤ 0x0d) || n = 0x20 || n = 0x85 || n = 0xa0 || n = 0x1680 ||
    (0x2000 ≤ n && n ≤ 0x200a) || n = 0x2028 || n = 0x2029 || n = 0x202f ||
    n = 0x205f || n = 0x3000

/-- White space of ASCII; a vertical tab does not count. -/
def isAsciiBlank (c : Char) : Bool :=
  c = ' ' || c = '\t' || c = '\n' || c = '\x0c' || c = '\r'

/-- The text without white space at either end. -/
def trimBlanks (cs : List Char) : List Char :=
  ((cs.dropWhile isBlank).reverse.dropWhile isBlank).reverse

/-- Whether `mantissa * 10 ^ exponent` is too large for a double: it rounds to
two to the power of 1024. -/
def exceedsDouble (mantissa : Nat) (exponent : Int) : Bool :=
  let digits := (Nat.toDigits 10 mantissa).length
  if mantissa = 0 || (digits : Int) + exponent < 300 then false
  else if 400 < (digits : Int) + exponent then true
  else
    let limit := (1 <<< 1024) - (1 <<< 970)
    if 0 ≤ exponent then limit ≤ mantissa * Nat.pow 10 exponent.toNat
    else limit * Nat.pow 10 (-exponent).toNat ≤ mantissa

end BlobCache
