import BlobCache.Config.Reader

/-!
# Text in TOML

Strings come in four kinds: with or without escapes, on one line or on several.
Control characters other than a tab are refused in all of them, as in comments;
a line that ends in a carriage return and a line feed counts as ending in a
line feed.  Keys are bare words or one-line strings.
-/

namespace BlobCache.Toml

open Reader

/-- A character that text may hold as it stands. -/
def isText (c : Char) : Bool :=
  c = '\t' || (0x20 ≤ c.toNat && c.toNat ≠ 0x7f)

def isSpace (c : Char) : Bool := c = ' ' || c = '\t'

def spaces : Reader Unit := skip isSpace

/-- Take the end of a line, if it comes next. -/
def acceptNewline : Reader Bool := do
  if ← accept "\n" then return true else accept "\r\n"

/-- Take a comment, if one comes next. -/
def acceptComment : Reader Bool := do
  if ← accept "#" then
    skip isText
    return true
  else return false

/-- The rest of a line: blanks, a comment perhaps, and its end. -/
def lineEnd : Reader Unit := do
  spaces
  let _ ← acceptComment
  if !(← acceptNewline) then
    if !(← atEnd) then failure

/-- Pass over blanks, lines and comments. -/
def blankLines : Reader Unit := do
  let _ ← collect do
    spaces
    if ← acceptComment then
      if ← acceptNewline then return some () else failure
    if ← acceptNewline then return some () else return none

/-! ## Strings -/

def codePoint (digits : Nat) : Reader Char := do
  match (number? 16 (← take digits)).bind scalar? with
  | some c => return c
  | none => failure

/-- What follows a backslash. -/
def escape : Reader Char := do
  match ← next with
  | '"' => return '"'
  | '\\' => return '\\'
  | 'b' => return '\x08'
  | 'f' => return '\x0c'
  | 'n' => return '\n'
  | 'r' => return '\r'
  | 't' => return '\t'
  | 'u' => codePoint 4
  | 'U' => codePoint 8
  | _ => failure

/-- The rest of a one-line string that ends with `mark`. -/
def oneLine (mark : Char) : Reader String := do
  let cs ← collect do
    let c ← next
    if c = mark then return none
    if c = '\\' && mark = '"' then return some (← escape)
    if isText c then return some c else failure
  return String.ofList cs

/-- Blanks up to the end of the line and all blanks after it. -/
def lineJoint : Reader Unit := do
  spaces
  if !(← acceptNewline) then failure
  let _ ← collect do
    spaces
    if ← acceptNewline then return some () else return none

/-- The rest of a string of several lines that ends with three `mark`s. Up to
two more before the last three belong to the string. -/
def manyLines (mark : Char) : Reader String := do
  let _ ← acceptNewline
  let parts ← collect do
    let marks := ((← ahead).takeWhile (· = mark)).length
    if 3 ≤ marks then return none
    if ← acceptNewline then return some ['\n']
    let c ← next
    if c = '\\' && mark = '"' then
      match ← attempt lineJoint with
      | some () => return some []
      | none => return some [← escape]
    if c = mark || isText c then return some [c] else failure
  let marks := ((← ahead).takeWhile (· = mark)).length
  let kept ← take (min (marks - 3) 2)
  let _ ← take 3
  return String.ofList (parts.flatten ++ kept)

/-- A string of any kind. -/
def string : Reader String := do
  if ← accept "\"\"\"" then manyLines '"'
  else if ← accept "'''" then manyLines '\''
  else if ← accept "\"" then oneLine '"'
  else
    expect "'"
    oneLine '\''

/-! ## Keys -/

def isBare (c : Char) : Bool := c.isAlphanum || c = '_' || c = '-'

/-- One part of a key. -/
def simpleKey : Reader String := do
  if ← accept "\"" then oneLine '"'
  else if ← accept "'" then oneLine '\''
  else String.ofList <$> takeSome isBare

/-- The largest number of parts a key may have. -/
def keyParts : Nat := 79

/-- A key: the parts before the last one, and the last. -/
def key : Reader (List String × String) := do
  spaces
  let first ← simpleKey
  let rest ← collect do
    spaces
    if ← accept "." then
      spaces
      return some (← simpleKey)
    return none
  let parts := first :: rest
  if keyParts < parts.length then failure
  return (parts.dropLast, (first :: rest).getLast (List.cons_ne_nil _ _))

end BlobCache.Toml
