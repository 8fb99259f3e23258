import BlobCache.Config.Reader

/-!
# YAML tokens

A YAML text is cut into tokens before its structure is looked at.  This is what
cutting works with: the tokens, how far the text has been cut (`Scan`), and the
motions of a scanner.

Indentation becomes tokens of its own: a collection in block style opens where a
line is indented further than the lines around it, and closes where a line is
indented less.

Whether something is a key shows only at the colon behind it.  Until then its
place is remembered as a possible key, one for each bracket that is open; a key
stands on one line and is at most 1024 characters long.  Where a key has to
stand and no colon comes, the text is refused.
-/

namespace BlobCache.Yaml

/-- A token of a YAML text. -/
inductive Token where
  | version (major minor : Nat)
  | tagHandle (handle expansion : String)
  | documentStart
  | documentEnd
  | blockSequence
  | blockMapping
  | blockEnd
  | openSequence
  | closeSequence
  | openMapping
  | closeMapping
  /-- The dash of an item in block style. -/
  | item
  | comma
  | key
  | value
  | alias (name : String)
  | anchor (name : String)
  | tag (handle suffix : String)
  | scalar (text : String) (plain : Bool)
deriving DecidableEq, Repr

/-- A place where a key may begin. -/
structure PossibleKey where
  /-- Nothing but a key can stand here. -/
  required : Bool
  /-- The number of tokens before it. -/
  tokens : Nat
  offset : Nat
  line : Nat
  column : Nat

/-- How far a text has been cut. -/
structure Scan where
  rest : List Char
  offset : Nat := 0
  line : Nat := 0
  column : Nat := 0
  tokens : Array Token := #[]
  /-- The indentation of the innermost block collection; -1 outside of all. -/
  indent : Int := -1
  /-- The indentations of the block collections around it. -/
  outer : List Int := []
  /-- Whether a key may begin here. -/
  keyAllowed : Bool := true
  /-- The possible key of each open bracket, innermost first, and of the
  text. -/
  keys : List (Option PossibleKey) := [none]

/-- Cuts something off a text. -/
abbrev Scanner (α : Type) := StateT Scan Option α

/-! ## Characters -/

def isBreak (c : Char) : Bool :=
  c = '\n' || c = '\r' || c = '\x85' || c = '\u2028' || c = '\u2029'

def isBlankChar (c : Char) : Bool := c = ' ' || c = '\t'

/-- A character of a word: a handle or the name of an anchor. -/
def isWord (c : Char) : Bool := c.isAlphanum || c = '_' || c = '-'

/-- A character that a YAML text may hold. -/
def isPrintable (c : Char) : Bool :=
  let n := c.toNat
  n = 0x09 || n = 0x0a || n = 0x0d || (0x20 ≤ n && n ≤ 0x7e) || n = 0x85 ||
    (0xa0 ≤ n && n ≤ 0xfffd) || 0x10000 ≤ n

namespace Scanner

/-- The character `n` places ahead. -/
def look (n : Nat) : Scanner (Option Char) := do return (← get).rest[n]?

/-- Whether the character `n` places ahead is `c`. -/
def sees (n : Nat) (c : Char) : Scanner Bool := do return (← look n) = some c

def seesBreak (n : Nat) : Scanner Bool := do return (← look n).any isBreak

def seesBlank (n : Nat) : Scanner Bool := do return (← look n).any isBlankChar

def seesEnd (n : Nat) : Scanner Bool := do return (← look n).isNone

/-- Whether a blank, a line break or the end is `n` places ahead. -/
def seesGap (n : Nat) : Scanner Bool := do
  match ← look n with
  | none => return true
  | some c => return isBreak c || isBlankChar c

def seesBreakOrEnd (n : Nat) : Scanner Bool := do
  match ← look n with
  | none => return true
  | some c => return isBreak c

/-- Whether a mark of a document's start or end stands here. -/
def seesDocumentMark : Scanner Bool := do
  let s ← get
  let mark := String.ofList (s.rest.take 3)
  return s.column = 0 && (mark = "---" || mark = "...") && (← seesGap 3)

/-- Take one character of a line. -/
def step : Scanner Char := do
  let s ← get
  match s.rest with
  | [] => failure
  | c :: rest =>
    set { s with rest, offset := s.offset + 1, column := s.column + 1 }
    return c

/-- Take `n` characters of a line. -/
def stepOver (n : Nat) : Scanner Unit := do
  let _ ← (List.replicate n ()).mapM fun _ => step

/-- Take a line break, if there is one, as it counts in a scalar. -/
def lineBreak : Scanner (List Char) := do
  let s ← get
  let taken (n : Nat) (rest : List Char) (as : List Char) : Scanner (List Char) := do
    set { s with rest, offset := s.offset + n, column := 0, line := s.line + 1 }
    return as
  match s.rest with
  | '\r' :: '\n' :: rest => taken 2 rest ['\n']
  | c :: rest =>
    if c = '\u2028' || c = '\u2029' then taken 1 rest [c]
    else if isBreak c then taken 1 rest ['\n']
    else return []
  | [] => return []

/-- Do `step` until it answers `none`. Every round takes a character. -/
def collect {α : Type} (step : Scanner (Option α)) : Scanner (List α) := fun s =>
  collectWithin step (s.rest.length + 2) s

/-- Take characters as long as they satisfy `p`. -/
def takeWhile (p : Char → Bool) : Scanner (List Char) :=
  collect do
    match ← look 0 with
    | some c => if p c then some <$> step else return none
    | none => return none

def skipBlanks : Scanner Unit := do let _ ← takeWhile isBlankChar

/-- Pass over the rest of the line. -/
def skipLine : Scanner Unit := do let _ ← takeWhile fun c => !isBreak c

/-! ## Tokens, indentation and keys -/

def push (t : Token) : Scanner Unit :=
  modify fun s => { s with tokens := s.tokens.push t }

/-- Put a token behind the first `n`. -/
def insertAt (n : Nat) (t : Token) : Scanner Unit :=
  modify fun s =>
    { s with tokens := (s.tokens.extract 0 n).push t ++ s.tokens.extract n s.tokens.size }

/-- Whether a bracket is open. -/
def inBrackets : Scanner Bool := do return 1 < (← get).keys.length

def allowKey (allowed : Bool) : Scanner Unit :=
  modify fun s => { s with keyAllowed := allowed }

/-- Close the block collections that are indented further than `column`. -/
def unroll (column : Int) : Scanner Unit := do
  if ← inBrackets then return ()
  let _ ← collectWithin
    (do
      let s ← get
      if column < s.indent then
        push .blockEnd
        modify fun s => { s with indent := s.outer.headD (-1), outer := s.outer.tail }
        return some ()
      else return none)
    ((← get).outer.length + 2)

/-- Open a block collection behind the first `n` tokens if `column` is indented
further than the one around it. -/
def roll (column n : Nat) (opening : Token) : Scanner Unit := do
  if ← inBrackets then return ()
  let s ← get
  if s.indent < column then
    set { s with indent := (column : Int), outer := s.indent :: s.outer }
    insertAt n opening

/-- Give up a possible key; refused where only a key can stand. -/
def giveUp (k : Option PossibleKey) : Scanner Unit :=
  if k.any (·.required) then failure else return ()

/-- Forget the possible key of the innermost bracket. -/
def forgetKey : Scanner Unit := do
  giveUp (← get).keys.head?.join
  modify fun s => { s with keys := none :: s.keys.tail }

/-- Remember that a key may begin here, if it may. -/
def rememberKey : Scanner Unit := do
  let s ← get
  if s.keyAllowed then
    let required := s.keys.length = 1 && s.indent = s.column
    forgetKey
    modify fun s =>
      { s with
        keys := some {
            required
            tokens := s.tokens.size
            offset := s.offset
            line := s.line
            column := s.column } :: s.keys.tail }

/-- Forget the possible keys that began on an earlier line or too long ago. -/
def forgetStale : Scanner Unit := do
  let s ← get
  let stale (k : PossibleKey) : Bool := k.line < s.line || k.offset + 1024 < s.offset
  let _ ← s.keys.mapM fun k => if Option.any stale k then giveUp k else pure ()
  set { s with keys := s.keys.map fun k => if Option.any stale k then none else k }

end Scanner

end BlobCache.Yaml
