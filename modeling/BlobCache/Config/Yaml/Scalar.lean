import BlobCache.Config.Yaml.Token

/-!
# YAML scalars

A scalar is plain, in single or double quotes, or in block style.  Outside of
block style a line break inside a scalar is a space, and of several breaks in a
row the first is dropped; a block scalar keeps its breaks or joins its lines by
rules of its own, and its header says what becomes of the breaks at its end.
-/

namespace BlobCache.Yaml.Scanner

/-- How lines are joined: one break is a space, and of more the first is
dropped; a break that is no line feed stays. -/
def folded (first : List Char) (more : List Char) : List Char :=
  if first.head? = some '\n' then (if more.isEmpty then [' '] else more) else first ++ more

/-- Blanks and line breaks between two words of a scalar. -/
structure Between where
  blanks : List Char := []
  /-- The first line break, once one was passed. -/
  first : Option (List Char) := none
  more : List Char := []

/-- Take blanks and breaks; a tab may not stand left of `column`. -/
def between (start : Between) (column : Int) : Scanner Between := do
  let parts ← collect do
    if ← seesBlank 0 then
      let place := (← get).column
      return some (Sum.inl (← step, place))
    if ← seesBreak 0 then return some (Sum.inr (← lineBreak))
    return none
  parts.foldlM
    (fun (b : Between) part =>
      match part with
      | .inl (c, place) =>
        if b.first.isSome then
          if c = '\t' && (place : Int) < column then failure else return b
        else return { b with blanks := b.blanks ++ [c] }
      | .inr br =>
        match b.first with
        | none => return { b with blanks := [], first := some br }
        | some _ => return { b with more := b.more ++ br })
    start

/-- The characters that stand for what was between two words. -/
def Between.text (b : Between) : List Char :=
  match b.first with
  | none => b.blanks
  | some first => folded first b.more

/-- Whether a plain scalar ends before the character here. -/
def endsPlain : Scanner Bool := do
  if ← seesGap 0 then return true
  let c ← look 0
  if c = some ':' && (← seesGap 1) then return true
  if ← inBrackets then
    return c.any fun c => c = ',' || c = '[' || c = ']' || c = '\x7b' || c = '\x7d'
  return false

/-- Whether a colon stands here that no plain scalar in brackets may hold. -/
def seesStrayColon : Scanner Bool := do
  if !(← inBrackets) || !(← sees 0 ':') then return false
  return (← look 1).any fun c =>
    c = ',' || c = '?' || c = '[' || c = ']' || c = '\x7b' || c = '\x7d'

/-- The characters of a plain scalar up to the next blank. -/
def plainWord : Scanner (List Char) :=
  collect do
    if ← seesStrayColon then failure
    if ← endsPlain then return none
    some <$> step

/-- A scalar without quotes. -/
def plainScalar : Scanner Unit := do
  let indent := (← get).indent + 1
  let first ← plainWord
  let parts ← collect do
    if !(← seesBlank 0) && !(← seesBreak 0) then return none
    let gap ← between {} indent
    if gap.first.isSome then allowKey true
    let s ← get
    if s.keys.length = 1 && (s.column : Int) < indent then return none
    if ← seesDocumentMark then return none
    if ← sees 0 '#' then return none
    let word ← plainWord
    if word.isEmpty then return none
    allowKey false
    return some (gap.text ++ word)
  push (.scalar (String.ofList (first ++ parts.flatten)) true)

/-- The number that the next `digits` hexadecimal digits write. -/
def hexNumber (digits : Nat) : Scanner Nat := do
  let ds := (← get).rest.take digits
  if ds.length < digits then failure
  stepOver digits
  match number? 16 ds with
  | some n => return n
  | none => failure

def codePoint (digits : Nat) : Scanner Char := do
  match scalar? (← hexNumber digits) with
  | some c => return c
  | none => failure

/-- What follows a backslash. -/
def escape : Scanner Char := do
  match ← step with
  | '0' => return '\x00'
  | 'a' => return '\x07'
  | 'b' => return '\x08'
  | 't' => return '\t'
  | '\t' => return '\t'
  | 'n' => return '\n'
  | 'v' => return '\x0b'
  | 'f' => return '\x0c'
  | 'r' => return '\r'
  | 'e' => return '\x1b'
  | ' ' => return ' '
  | '"' => return '"'
  | '/' => return '/'
  | '\\' => return '\\'
  | 'N' => return '\x85'
  | '_' => return '\xa0'
  | 'L' => return '\u2028'
  | 'P' => return '\u2029'
  | 'x' => codePoint 2
  | 'u' => codePoint 4
  | 'U' => codePoint 8
  | _ => failure

/-- The characters of a quoted scalar up to the next blank; says whether a line
break was escaped after them. -/
def quotedWord (mark : Char) : Scanner (List Char) :=
  collect do
    if ← seesGap 0 then return none
    if mark = '\'' && (← sees 0 '\'') && (← sees 1 '\'') then
      stepOver 2
      return some '\''
    if ← sees 0 mark then return none
    if mark = '"' && (← sees 0 '\\') then
      if ← seesBreak 1 then return none
      let _ ← step
      return some (← escape)
    some <$> step

/-- A scalar in quotes. -/
def quotedScalar (mark : Char) : Scanner Unit := do
  let _ ← step
  let parts ← collect do
    if ← seesDocumentMark then failure
    if ← seesEnd 0 then failure
    let word ← quotedWord mark
    let escaped ← sees 0 '\\'
    if escaped then
      let _ ← step
      let _ ← lineBreak
      let gap ← between { first := some [] } (-1)
      return some (word ++ gap.text)
    if ← sees 0 mark then
      if word.isEmpty then return none else return some word
    let gap ← between {} (-1)
    return some (word ++ gap.text)
  let _ ← step
  push (.scalar (String.ofList parts.flatten) false)

/-- What happens to the line breaks at the end of a block scalar. -/
inductive Chomping where
  | strip
  | clip
  | keep
deriving DecidableEq

/-- The marks behind the sign of a block scalar: chomping and indentation, in
either order. -/
def blockHeader : Scanner (Chomping × Nat) := do
  let chomping : Scanner (Option Chomping) := do
    if ← sees 0 '+' then
      let _ ← step
      return some .keep
    if ← sees 0 '-' then
      let _ ← step
      return some .strip
    return none
  let indentation : Scanner Nat := do
    match ← look 0 with
    | some c =>
      if !c.isDigit then return 0
      if c = '0' then failure
      let _ ← step
      return c.toNat - '0'.toNat
    | none => return 0
  match ← chomping with
  | some c => return (c, ← indentation)
  | none =>
    let n ← indentation
    return ((← chomping).getD .clip, n)

/-- Pass over empty lines, whose breaks are kept, and over the indentation of
the first other line, which it says; `indent` is 0 if it is still to be found
out. -/
def blockBreaks (indent : Nat) : Scanner (List Char × Nat) := do
  let short (s : Scan) : Bool := indent = 0 || s.column < indent
  let lines ← collect do
    let spaces ← collect do
      if short (← get) && (← sees 0 ' ') then some <$> step else return none
    if short (← get) && (← sees 0 '\t') then failure
    if ← seesBreak 0 then return some (spaces.length, ← lineBreak)
    return none
  let s ← get
  let widest := lines.foldl (fun w line => max w line.1) s.column
  let found := if indent = 0 then max widest (max (s.indent + 1).toNat 1) else indent
  return ((lines.map (·.2)).flatten, found)

/-- A scalar in block style: line by line if `literal`, and otherwise with
single breaks between lines that do not begin with a blank read as spaces. -/
def blockScalar (literal : Bool) : Scanner Unit := do
  let _ ← step
  let (chomping, increment) ← blockHeader
  skipBlanks
  if ← sees 0 '#' then skipLine
  if !(← seesBreakOrEnd 0) then failure
  let _ ← lineBreak
  let base := (← get).indent.toNat
  let (breaks, indent) ← blockBreaks (if increment = 0 then 0 else base + increment)
  let parts ← collect do
    if (← get).column ≠ indent || (← seesEnd 0) then return none
    let indented ← seesBlank 0
    let line ← takeWhile fun c => !isBreak c
    let ending ← lineBreak
    let (more, _) ← blockBreaks indent
    return some (indented, line, ending, more)
  -- The text so far, the break before the next line, the empty lines behind it,
  -- and whether the line before began with a blank.
  let start : List Char × List Char × List Char × Bool := ([], [], breaks, false)
  let (text, last, empty, _) := parts.foldl
    (fun (text, last, empty, wasIndented) (indented, line, ending, more) =>
      let joint :=
        if !literal && last.head? = some '\n' && !wasIndented && !indented then
          if empty.isEmpty then [' '] else []
        else last
      (text ++ joint ++ empty ++ line, ending, more, indented))
    start
  let tail := match chomping with
    | .strip => []
    | .clip => last
    | .keep => last ++ empty
  push (.scalar (String.ofList (text ++ tail)) false)

end BlobCache.Yaml.Scanner
