import BlobCache.Config.Platform
import BlobCache.Config.Reader
import BlobCache.Word

/-!
# Settings in environment variables

Every variable whose name begins with `STASH_`, in capitals or not, is a
source of its own.  The rest of its name, in small letters, is the key; a full
stop in it leads into a dictionary.

A variable's text is read as a literal: a truth value, a number, a list, a
dictionary, a quoted string or character, or else a plain string without the
white space around it.  A text that is none of these as a whole is taken as it
stands.
-/

namespace BlobCache.Variable

open Reader

/-! ## Literals -/

/-- Whether a plain literal goes on with this character. -/
def isPlain (c : Char) : Bool :=
  !(c = ',' || c = '\x7b' || c = '\x7d' || c = '[' || c = ']')

/-- Whether a bare key goes on with this character. -/
def isKeyChar (c : Char) : Bool := c.isAlphanum || c = '_' || c = '-'

/-- Between two marks, a number of hexadecimal digits that write a character. -/
def codePoint (digits : Nat) : Reader Char := do
  match (number? 16 (← take digits)).bind scalar? with
  | some c => return c
  | none => failure

/-- What follows a backslash. -/
def escape : Reader Char := do
  match ← next with
  | '"' => return '"'
  | '\\' => return '\\'
  | 'b' => return '\x08'
  | 'f' => return '\x0c'
  | 'n' => return '\n'
  | 'r' => return '\r'
  | 't' => return '\t'
  | 'u' => codePoint 4
  | 'U' => codePoint 8
  | _ => failure

/-- A string in double quotes as it stands, with its escapes. -/
def quotedRaw : Reader (List Char) := do
  expect "\""
  let parts ← collect do
    match ← next with
    | '"' => return none
    | '\\' => return some ['\\', ← next]
    | c => return some [c]
  return parts.flatten

/-- The text that a string with escapes stands for. Control characters are
refused in it. -/
def unescaped : Reader (List Char) :=
  collect do
    if ← atEnd then return none
    match ← next with
    | '\\' => return some (← escape)
    | c => if c = '\t' || (0x20 ≤ c.toNat && c.toNat ≠ 0x7f) then return some c else failure

/-- A string in double quotes. -/
def quoted : Reader String := do
  let raw ← quotedRaw
  if raw.contains '\\' then
    match unescaped.all? raw with
    | some cs => return String.ofList cs
    | none => failure
  else return String.ofList raw

/-- The number and sign that a text begins with, if it is a whole number. -/
def integer? (cs : List Char) : Option Int :=
  match cs with
  | '+' :: digits => (number? 10 digits).map Int.ofNat
  | '-' :: digits => (number? 10 digits).map fun n => -(Int.ofNat n)
  | digits => (number? 10 digits).map Int.ofNat

/-- Whether a text is a number with a point or an exponent, or one of the words
for what is no number or not finite. -/
def isReal (cs : List Char) : Bool :=
  let unsigned := match cs with
    | '+' :: rest => rest
    | '-' :: rest => rest
    | rest => rest
  let word := String.ofList (unsigned.map Char.toLower)
  if word = "inf" || word = "infinity" || word = "nan" then true
  else
    let whole := unsigned.takeWhile Char.isDigit
    let afterWhole := unsigned.dropWhile Char.isDigit
    let (fraction, afterFraction) := match afterWhole with
      | '.' :: rest => (rest.takeWhile Char.isDigit, rest.dropWhile Char.isDigit)
      | rest => ([], rest)
    let power := match afterFraction with
      | [] => true
      | mark :: rest =>
        let digits := match rest with
          | '+' :: ds => ds
          | '-' :: ds => ds
          | ds => ds
        (mark = 'e' || mark = 'E') && !digits.isEmpty && digits.all Char.isDigit
    !(whole.isEmpty && fraction.isEmpty) && power

/-- A literal without marks around it: a number if it is one. -/
def plain (cs : List Char) : Value :=
  match integer? cs with
  | some n =>
    if smallest ≤ n && n ≤ wordMax then .integer n else .real
  | none => if isReal cs then .real else .text (String.ofList cs)

/-- Items between two marks, with commas between them; one may follow the last
item. -/
def listed {α : Type} (opening close : String) (item : Reader α) : Reader (List α) := do
  expect opening
  collect do
    if ← accept close then return none
    let a ← item
    let more ← accept ","
    if more || (← peek) = close.toList.head? then return some a else failure

/-- A key and its value in a dictionary. -/
def member (value : Reader Value) : Reader (String × Value) := do
  skip isAsciiBlank
  let key ← if (← peek) = some '"' then quoted else String.ofList <$> takeSome isKeyChar
  skip isAsciiBlank
  expect "="
  skip isAsciiBlank
  let v ← value
  skip isAsciiBlank
  return (key, v)

/-- A literal in which lists and dictionaries lie at most `depth` deep. -/
def literal : (depth : Nat) → Reader Value
  | 0 => failure
  | inner + 1 => do
    skip isAsciiBlank
    let v ←
      if ← accept "true" then pure (.bool true)
      else if ← accept "false" then pure (.bool false)
      else
        match ← peek with
        | some '\x7b' =>
          let members ← listed "\x7b" "\x7d" (member (literal inner))
          pure (.dict (members.foldl (fun fields (k, v) => Fields.put fields k v) []))
        | some '[' => .list <$> listed "[" "]" (literal inner)
        | some '"' => .text <$> quoted
        | some '\'' => do
          let _ ← next
          let c ← next
          expect "'"
          pure (.text (String.ofList [c]))
        | _ => (plain ∘ trimBlanks) <$> takeWhile isPlain
    skip isAsciiBlank
    return v

/-- The value of a variable's text. -/
def value (text : String) : Value :=
  ((literal (text.length + 1)).all? text.toList).getD (.text text)

/-! ## Names -/

/-- What the names of variables with settings begin with. -/
def marker : String := "STASH_"

/-- The keys that a variable's name leads through, if it is one of ours. -/
def keys? (name : String) : Option (List String) :=
  let cs := trimBlanks name.toList
  let rest := trimBlanks (cs.drop marker.length)
  let keys := partsOf '.' (String.ofList (rest.map Char.toLower))
  if (cs.take marker.length).map Char.toUpper ≠ marker.toList || keys.contains "" then none
  else some keys

/-- The fields that hold `value` where the keys lead to. -/
def nested (value : Value) : List String → Fields
  | [] => []
  | [key] => [(key, value)]
  | key :: rest => [(key, .dict (nested value rest))]

/-- What a variable says about the settings. -/
def fields (name text : String) : Fields :=
  match keys? name with
  | some keys => nested (value text) keys
  | none => []

end BlobCache.Variable

namespace BlobCache

/-- What all variables together say about the settings, later ones on top. -/
def Environment.fields (env : Environment) : Fields :=
  env.foldl (fun fields (name, text) => fields.merge (Variable.fields name text)) []

end BlobCache
