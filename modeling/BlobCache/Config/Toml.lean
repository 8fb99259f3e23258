import BlobCache.Config.Toml.Document
import BlobCache.Config.Toml.Number

/-!
# TOML

A document is a sequence of lines: headers, which say what table the following
keys belong to, keys with values, and lines without either.  Reading goes line
by line; what a line defines is entered into the document at once, so that a
line that defines something twice is refused where it stands
(`Toml.Document`).
-/

namespace BlobCache.Toml

open Reader

/-- How deeply lists and tables within a line may lie in each other. -/
def nesting : Nat := 79

/-- A key in a table within a line, with its value. -/
def member (value : Reader Value) : Reader ((List String × String) × Value) := do
  let k ← key
  expect "="
  spaces
  let v ← value
  spaces
  return (k, v)

/-- The rest of a table within a line. -/
def inlineTable (value : Reader Value) : Reader Value := do
  spaces
  if ← accept "\x7d" then return .dict []
  let first ← member value
  let rest ← collect do
    if ← accept "," then return some (← member value)
    expect "\x7d"
    return none
  let doc ← (first :: rest).foldlM
    (fun (doc : Document) (k, v) => doc.assign [] k.1 k.2 v) {}
  return .dict doc.fields

/-- The rest of a list; its items may stand on lines of their own. -/
def array (value : Reader Value) : Reader Value := do
  let items ← collect do
    blankLines
    if ← accept "]" then return none
    let v ← value
    blankLines
    let more ← accept ","
    if more || (← peek) = some ']' then return some v else failure
  return .list items

/-- A value that holds no other. -/
def scalar : Reader Value := do
  match ← peek with
  | some '"' => return .text (← string)
  | some '\'' => return .text (← string)
  | some 't' => expect "true"; return .bool true
  | some 'f' => expect "false"; return .bool false
  | _ => dateTime <|> number

/-- A value in which lists and tables lie at most `depth` deep. -/
def value : (depth : Nat) → Reader Value
  | 0 => scalar
  | inner + 1 => do
    if ← accept "[" then array (value inner)
    else if ← accept "\x7b" then inlineTable (value inner)
    else scalar

/-- One line: what it adds to the document, and the table that the next keys
belong to. -/
def line (doc : Document) (place : Place) : Reader (Document × Place) := do
  match ← peek with
  | some '#' =>
    lineEnd
    return (doc, place)
  | some '[' =>
    let listed ← accept "[["
    if !listed then expect "["
    let (keys, last) ← key
    expect (if listed then "]]" else "]")
    lineEnd
    if listed then doc.startListed keys last else doc.startTable keys last
  | _ =>
    if ← acceptNewline then return (doc, place)
    let (keys, last) ← key
    expect "="
    spaces
    let v ← value nesting
    lineEnd
    return (← doc.assign place keys last v, place)

/-- Read lines to the end, at most `count` of them. -/
def lines : (count : Nat) → Document → Place → Reader Document
  | 0, _, _ => failure
  | count + 1, doc, place => do
    spaces
    if ← atEnd then return doc
    let (doc, place) ← line doc place
    lines count doc place

/-- The fields of a document. A byte order mark in front does not count. -/
def fields? (text : String) : Option Fields :=
  let cs := text.toList
  let cs := if cs.head? = some '\ufeff' then cs.drop 1 else cs
  ((lines (cs.length + 1) {} []).all? cs).map Document.fields

end BlobCache.Toml
