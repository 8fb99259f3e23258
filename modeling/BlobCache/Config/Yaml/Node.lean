import BlobCache.Config.Yaml.Tokens

/-!
# YAML nodes

The structure that the tokens of a text spell out: scalars, sequences and
mappings, each with the tag it carries.  An alias stands for the node that its
anchor marks further up.  Where a node may be missing, it is an empty scalar.

Aliases of aliases can make a short text stand for a huge structure.  So the
aliases are counted as often as they would be followed, and the text is refused
if they are too many for its length (`Parser.document`).

A text holds at most one document, which begins and ends with marks or without
them.
-/

namespace BlobCache.Yaml

/-- A node with the tag it carries, in full. -/
inductive Node where
  | scalar (tag : Option String) (plain : Bool) (text : String)
  | sequence (tag : Option String) (items : List Node)
  | mapping (tag : Option String) (pairs : List (Node × Node))

/-- What an anchor marks, and how many aliases are followed in it. -/
structure Anchored where
  node : Node
  aliases : Nat

/-- The tokens still to be read, and what the ones before them defined. -/
structure Parse where
  tokens : List Token
  anchors : List (String × Anchored) := []
  handles : List (String × String) := []
  /-- The beginnings and ends of nodes written so far; for a scalar or an alias
  they are one. -/
  bounds : Nat := 0
  /-- The aliases that are followed in reading what is written so far. -/
  aliases : Nat := 0

/-- Reads something off a sequence of tokens. -/
abbrev Parser (α : Type) := StateT Parse Option α

namespace Parser

/-- How deeply collections may lie in each other. -/
def nesting : Nat := 128

/-- The next token, left where it is. -/
def peek : Parser (Option Token) := do return (← get).tokens.head?

/-- Pass over a token. -/
def skip : Parser Unit := modify fun p => { p with tokens := p.tokens.tail }

/-- Take `t` if it comes next. -/
def accept (t : Token) : Parser Bool := do
  if (← peek) = some t then
    skip
    return true
  else return false

/-- Do `step` until it answers `none`. Every round takes a token. -/
def collect {α : Type} (step : Parser (Option α)) : Parser (List α) := fun p =>
  collectWithin step (p.tokens.length + 2) p

/-- Count the bounds of a node. -/
def bound (count : Nat) : Parser Unit :=
  modify fun p => { p with bounds := p.bounds + count }

/-- A scalar where it is written or, if it is empty, where it is not. -/
def scalar (tag : Option String) (plain : Bool) (text : String) : Parser Node := do
  bound 1
  return .scalar tag plain text

/-- The node that stands where none is written. -/
def empty : Parser Node := scalar none true ""

/-- A sequence of what `items` reads. -/
def sequence (tag : Option String) (items : Parser (List Node)) : Parser Node := do
  bound 2
  return .sequence tag (← items)

/-- A mapping of what `pairs` reads. -/
def mapping (tag : Option String) (pairs : Parser (List (Node × Node))) :
    Parser Node := do
  bound 2
  return .mapping tag (← pairs)

/-- Read with `node`, unless one of `ends` comes next. -/
def orEmpty (ends : List Token) (node : Parser Node) : Parser Node := do
  if (← peek).any ends.contains then empty else node

/-! ## Anchors and tags -/

/-- The tag that a handle and a suffix spell. -/
def fullTag (handle suffix : String) : Parser String := do
  if handle = "" then return suffix
  match (← get).handles.find? (·.1 = handle) with
  | some (_, expansion) => return expansion ++ suffix
  | none =>
    if handle = "!" then return "!" ++ suffix
    else if handle = "!!" then return "tag:yaml.org,2002:" ++ suffix
    else failure

def anchor? : Parser (Option String) := do
  match ← peek with
  | some (.anchor name) =>
    skip
    return some name
  | _ => return none

def tag? : Parser (Option String) := do
  match ← peek with
  | some (.tag handle suffix) =>
    skip
    return some (← fullTag handle suffix)
  | _ => return none

/-- An anchor and a tag, in either order. -/
def properties : Parser (Option String × Option String) := do
  match ← anchor? with
  | some name => return (some name, ← tag?)
  | none =>
    let tag ← tag?
    let name ← if tag.isSome then anchor? else pure none
    return (name, tag)

/-! ## Collections -/

/-- The items of a block sequence. -/
def blockItems (node : Parser Node) : Parser (List Node) :=
  collect do
    if ← accept .item then return some (← orEmpty [.item, .blockEnd] node)
    if ← accept .blockEnd then return none else failure

/-- The items of a sequence that is not indented further than its key. -/
def flatItems (node : Parser Node) : Parser (List Node) :=
  collect do
    if ← accept .item then
      return some (← orEmpty [.item, .key, .value, .blockEnd] node)
    return none

/-- The value behind a key, if a colon comes next. -/
def valuePart (ends : List Token) (node : Parser Node) : Parser Node := do
  if ← accept .value then orEmpty ends node else empty

/-- The pairs of a block mapping. -/
def blockPairs (node : Parser Node) : Parser (List (Node × Node)) :=
  let ends : List Token := [.key, .value, .blockEnd]
  collect do
    if ← accept .key then
      let k ← orEmpty ends node
      return some (k, ← valuePart ends node)
    if ← accept .blockEnd then return none else failure

/-- Items in brackets, with commas between them; one may follow the last. -/
def bracketed {α : Type} (close : Token) (item : Parser α) : Parser (List α) := do
  if ← accept close then return []
  let first ← item
  let rest ← collect do
    if ← accept close then return none
    if ← accept .comma then
      if ← accept close then return none
      return some (← item)
    failure
  return first :: rest

/-- A pair whose key mark has been read. -/
def markedPair (close : Token) (node : Parser Node) : Parser (Node × Node) := do
  let k ← orEmpty [.value, .comma, close] node
  return (k, ← valuePart [.comma, close] node)

/-- An item of a sequence in brackets; a pair in it is a mapping of its own. -/
def flowItem (node : Parser Node) : Parser Node := do
  if ← accept .key then mapping none do return [← markedPair .closeSequence node]
  else node

/-- A pair of a mapping in brackets. -/
def flowPair (node : Parser Node) : Parser (Node × Node) := do
  if ← accept .key then markedPair .closeMapping node
  else
    let k ← node
    return (k, ← empty)

/-! ## Nodes and documents -/

/-- What an alias stands for. -/
def follow (name : String) : Parser Node := do
  match (← get).anchors.find? (·.1 = name) with
  | some (_, marked) =>
    bound 1
    modify fun p => { p with aliases := p.aliases + marked.aliases + 1 }
    return marked.node
  | none => failure

/-- Mark what `node` reads by an anchor, if there is one. -/
def marking (anchor : Option String) (node : Parser Node) : Parser Node := do
  let before := (← get).aliases
  let n ← node
  match anchor with
  | some name =>
    modify fun p =>
      let marked : Anchored := { node := n, aliases := p.aliases - before }
      { p with anchors := (name, marked) :: p.anchors }
  | none => pure ()
  return n

/-- A node in which collections lie at most `depth` deep. In brackets it is
written without block style; a `flat` one may be a sequence that is not
indented. A tag that is nothing but a mark means nothing on a scalar. -/
def node : (depth : Nat) → (block flat : Bool) → Parser Node
  | 0, _, _ => failure
  | depth + 1, block, flat => do
    match ← peek with
    | some (.alias name) =>
      skip
      follow name
    | _ =>
      let (anchor, tag) ← properties
      marking anchor do
        match ← peek with
        | some .item =>
          if flat then sequence tag (flatItems (node depth true false))
          else if anchor.isSome || tag.isSome then scalar tag true ""
          else failure
        | some (.scalar text plain) =>
          skip
          scalar (if tag = some "!" then none else tag) plain text
        | some .openSequence =>
          skip
          sequence tag (bracketed .closeSequence (flowItem (node depth false false)))
        | some .openMapping =>
          skip
          mapping tag (bracketed .closeMapping (flowPair (node depth false false)))
        | other =>
          if block && other = some .blockSequence then
            skip
            sequence tag (blockItems (node depth true false))
          else if block && other = some .blockMapping then
            skip
            mapping tag (blockPairs (node depth true true))
          else if anchor.isSome || tag.isSome then scalar tag true ""
          else failure

/-- The directives in front of a document: how many there are. -/
def directives : Parser Nat := do
  let seen ← collect do
    match ← peek with
    | some (.version major minor) =>
      skip
      if major = 1 && (minor = 1 || minor = 2) then return some true else failure
    | some (.tagHandle handle expansion) =>
      skip
      if (← get).handles.any (·.1 = handle) then failure
      modify fun p => { p with handles := (handle, expansion) :: p.handles }
      return some false
    | _ => return none
  if 1 < (seen.filter id).length then failure
  return seen.length

/-- How many aliases may be followed for every bound of a node. -/
def aliasesPerBound : Nat := 100

/-- The one document of a text, if there is one. -/
def document : Parser (Option Node) := do
  if (← peek).isNone then return none
  let count ← directives
  let marked ← accept .documentStart
  if 0 < count && !marked then failure
  let ended := match ← peek with
    | none | some .documentStart | some .documentEnd | some (.version ..)
    | some (.tagHandle ..) => true
    | _ => false
  let n ← if marked && ended then empty else node (nesting + 1) true false
  let _ ← collect do
    if ← accept .documentEnd then return some () else return none
  if (← peek).isSome then failure
  let p ← get
  if aliasesPerBound * p.bounds < p.aliases then failure
  return some n

end Parser

/-- The document of a text; the inner option is empty if the text holds none. -/
def document? (text : String) : Option (Option Node) := do
  let tokens ← tokens? text
  (Parser.document.run { tokens }).map (·.1)

end BlobCache.Yaml
