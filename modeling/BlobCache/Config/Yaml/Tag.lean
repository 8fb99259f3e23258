import BlobCache.Config.Yaml.Token

/-!
# Anchors, tags and directives of YAML

The small print of a text: names by which nodes are marked and referred to,
tags that say what a node is, and the lines in front of a document that fix the
version and abbreviate tags.
-/

namespace BlobCache.Yaml.Scanner

/-- The name behind the mark of an anchor or an alias. -/
def reference : Scanner String := do
  let _ ← step
  let name ← takeWhile isWord
  let ends ← seesGap 0
  let marked := (← look 0).any fun c =>
    c = '?' || c = ':' || c = ',' || c = ']' || c = '\x7d' || c = '%' || c = '@' || c = '\x60'
  if name.isEmpty || !(ends || marked) then failure
  return String.ofList name

/-- A character of a tag; lists have their marks among them only in angle
brackets. -/
def isTagChar (bracketed : Bool) (c : Char) : Bool :=
  isWord c || ";/?:@&=+$.%!~*'()".toList.contains c ||
    (bracketed && (c = ',' || c = '[' || c = ']'))

/-- A handle between exclamation marks, or the first mark with what follows. -/
def tagHandle : Scanner String := do
  if !(← sees 0 '!') then failure
  let _ ← step
  let word ← takeWhile isWord
  if ← sees 0 '!' then
    let _ ← step
    return String.ofList ('!' :: word ++ ['!'])
  return String.ofList ('!' :: word)

/-- A tag, taken apart into handle and suffix. -/
def tag : Scanner Unit := do
  let token ←
    if ← sees 1 '<' then do
      stepOver 2
      let uri ← takeWhile (isTagChar true)
      if uri.isEmpty || !(← sees 0 '>') then failure
      let _ ← step
      pure (Token.tag "" (String.ofList uri))
    else do
      let handle ← tagHandle
      if 1 < handle.length && handle.toList.getLast? = some '!' then
        let suffix ← takeWhile (isTagChar false)
        if suffix.isEmpty then failure
        pure (Token.tag handle (String.ofList suffix))
      else
        let more ← takeWhile (isTagChar false)
        let suffix := String.ofList (handle.toList.drop 1 ++ more)
        pure (if suffix = "" then Token.tag "" "!" else Token.tag "!" suffix)
  if !(← seesGap 0) then
    if !((← inBrackets) && (← sees 0 ',')) then failure
  push token

/-- The number that the digits here write. -/
def decimalNumber : Scanner Nat := do
  let ds ← takeWhile Char.isDigit
  if 9 < ds.length then failure
  match number? 10 ds with
  | some n => return n
  | none => failure

/-- A line that begins with a percent sign. -/
def directive : Scanner Unit := do
  let _ ← step
  let name := String.ofList (← takeWhile isWord)
  if !(← seesGap 0) then failure
  skipBlanks
  if name = "YAML" then
    let major ← decimalNumber
    if !(← sees 0 '.') then failure
    let _ ← step
    push (.version major (← decimalNumber))
  else if name = "TAG" then
    let handle ← tagHandle
    if handle ≠ "!" && handle.toList.getLast? ≠ some '!' then failure
    if !(← seesBlank 0) then failure
    skipBlanks
    let expansion ← takeWhile (isTagChar true)
    if expansion.isEmpty || !(← seesGap 0) then failure
    push (.tagHandle handle (String.ofList expansion))
  else failure
  skipBlanks
  if ← sees 0 '#' then skipLine
  if !(← seesBreakOrEnd 0) then failure
  let _ ← lineBreak

end BlobCache.Yaml.Scanner
