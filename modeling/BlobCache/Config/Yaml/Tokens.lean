import BlobCache.Config.Yaml.Scalar
import BlobCache.Config.Yaml.Tag

/-!
# The tokens of a YAML text

From token to token: blanks, comments and line breaks are passed over, block
collections that end here are closed, and the next character decides what comes
(`Scanner.token`).  `tokens?` does this for a whole text.
-/

namespace BlobCache.Yaml

namespace Scanner

/-- Pass over blanks, comments and line breaks. Tabs are blanks only where no
key may begin. -/
def skipToToken : Scanner Unit := do
  let _ ← collect do
    let s ← get
    if s.column = 0 && (← sees 0 '\ufeff') then
      let _ ← step
    let tabs := (← inBrackets) || !(← get).keyAllowed
    let _ ← takeWhile fun c => c = ' ' || (tabs && c = '\t')
    if ← sees 0 '#' then skipLine
    if ← seesBreak 0 then
      let _ ← lineBreak
      if !(← inBrackets) then allowKey true
      return some ()
    return none

/-- The dash of an item. -/
def itemMark : Scanner Unit := do
  let s ← get
  if !(← inBrackets) then
    if !s.keyAllowed then failure
    roll s.column s.tokens.size .blockSequence
  forgetKey
  allowKey true
  let _ ← step
  push .item

/-- The question mark of a key. -/
def keyMark : Scanner Unit := do
  let s ← get
  let bracketed ← inBrackets
  if !bracketed then
    if !s.keyAllowed then failure
    roll s.column s.tokens.size .blockMapping
  forgetKey
  allowKey (!bracketed)
  let _ ← step
  push .key

/-- The colon of a value: what could have been a key is one. -/
def valueMark : Scanner Unit := do
  let s ← get
  let bracketed ← inBrackets
  match s.keys.head?.join with
  | some k =>
    insertAt k.tokens .key
    roll k.column k.tokens .blockMapping
    modify fun s => { s with keys := none :: s.keys.tail }
    allowKey false
  | none =>
    if !bracketed then
      if !s.keyAllowed then failure
      roll s.column s.tokens.size .blockMapping
    allowKey (!bracketed)
  let _ ← step
  push .value

def openBracket (t : Token) : Scanner Unit := do
  rememberKey
  modify fun s => { s with keys := none :: s.keys }
  allowKey true
  let _ ← step
  push t

def closeBracket (t : Token) : Scanner Unit := do
  forgetKey
  modify fun s => { s with keys := if 1 < s.keys.length then s.keys.tail else s.keys }
  allowKey false
  let _ ← step
  push t

/-- Close everything that is open in block style; no key may begin here. -/
def closeBlocks : Scanner Unit := do
  unroll (-1)
  forgetKey
  allowKey false

/-- Something that may turn out to be a key. -/
def keyLike (scan : Scanner Unit) : Scanner Unit := do
  rememberKey
  allowKey false
  scan

/-- Whether a plain scalar can begin here. -/
def beginsPlain : Scanner Bool := do
  match ← look 0 with
  | none => return false
  | some c =>
    if isBreak c || isBlankChar c then return false
    if c = '-' then return !(← seesBlank 1)
    if (c = '?' || c = ':') && !(← inBrackets) then return !(← seesGap 1)
    return !("-?:,[]\x7b\x7d#&*!|>'\"%@\x60".toList.contains c)

/-- Cut off the next token and those that come with it; says whether there was
one. -/
def token : Scanner Bool := do
  skipToToken
  forgetStale
  unroll (← get).column
  if ← seesEnd 0 then
    closeBlocks
    return false
  let s ← get
  let bracketed ← inBrackets
  if s.column = 0 && (← sees 0 '%') then
    closeBlocks
    directive
  else if ← seesDocumentMark then
    let start ← sees 0 '-'
    closeBlocks
    stepOver 3
    push (if start then .documentStart else .documentEnd)
  else if ← sees 0 '[' then openBracket .openSequence
  else if ← sees 0 '\x7b' then openBracket .openMapping
  else if ← sees 0 ']' then closeBracket .closeSequence
  else if ← sees 0 '\x7d' then closeBracket .closeMapping
  else if ← sees 0 ',' then
    forgetKey
    allowKey true
    let _ ← step
    push .comma
  else if (← sees 0 '-') && (← seesGap 1) then itemMark
  else if (← sees 0 '?') && (bracketed || (← seesGap 1)) then keyMark
  else if (← sees 0 ':') && (bracketed || (← seesGap 1)) then valueMark
  else if ← sees 0 '*' then keyLike do push (.alias (← reference))
  else if ← sees 0 '&' then keyLike do push (.anchor (← reference))
  else if ← sees 0 '!' then keyLike tag
  else if (← sees 0 '|') && !bracketed then
    forgetKey
    allowKey true
    blockScalar true
  else if (← sees 0 '>') && !bracketed then
    forgetKey
    allowKey true
    blockScalar false
  else if ← sees 0 '\'' then keyLike (quotedScalar '\'')
  else if ← sees 0 '"' then keyLike (quotedScalar '"')
  else if ← beginsPlain then keyLike plainScalar
  else failure
  return true

end Scanner

/-- The tokens of a text, unless it holds something that is no YAML. -/
def tokens? (text : String) : Option (List Token) := do
  let cs := text.toList
  let cs := if cs.head? = some '\ufeff' then cs.drop 1 else cs
  if !cs.all isPrintable then none
  let scan : Scanner (List Unit) := Scanner.collect do
    if ← Scanner.token then return some () else return none
  let (_, s) ← scan.run { rest := cs }
  some s.tokens.toList

end BlobCache.Yaml
