import BlobCache.Config.Value
import BlobCache.Config.Variable
import BlobCache.Config.Yaml.Node

/-!
# YAML

What the nodes of a document are worth.  A plain scalar is what it looks like:
null, a truth value, a number or else text; a quoted one is text.  A tag of the
YAML repository overrides the looks; other tags have no meaning here and are
refused.  Keys are text, whatever they look like, and of a repeated key the
last value counts.
-/

namespace BlobCache.Yaml

def isNull (text : String) : Bool :=
  text = "~" || text = "null" || text = "Null" || text = "NULL"

def truth? (text : String) : Option Bool :=
  if text = "true" || text = "True" || text = "TRUE" then some true
  else if text = "false" || text = "False" || text = "FALSE" then some false
  else none

/-- Digits behind a leading zero, which make no number. -/
def hasLeadingZero (cs : List Char) : Bool :=
  let digits := match cs with
    | '+' :: rest => rest
    | '-' :: rest => rest
    | rest => rest
  digits.head? = some '0' && 1 < digits.length && digits.all Char.isDigit

/-- A number without its sign: decimal, or in another base behind its mark. -/
def unsigned? (cs : List Char) : Option Nat :=
  match cs with
  | '0' :: 'x' :: digits => number? 16 digits
  | '0' :: 'o' :: digits => number? 8 digits
  | '0' :: 'b' :: digits => number? 2 digits
  | digits => number? 10 digits

/-- The whole number that a text is; it has at most 128 bits. -/
def integer? (cs : List Char) : Option Int :=
  if hasLeadingZero cs then none
  else
    match cs with
    | '-' :: rest =>
      (unsigned? rest).bind fun n => if n ≤ 1 <<< 127 then some (-(Int.ofNat n)) else none
    | '+' :: rest => (unsigned? rest).bind fun n => if n < 1 <<< 128 then some n else none
    | rest => (unsigned? rest).bind fun n => if n < 1 <<< 128 then some n else none

/-- Whether a text is a finite number with a point or an exponent, or one with
too many digits for a whole number. -/
def isFinite (cs : List Char) : Bool :=
  let digits := cs.filter fun c => c ≠ '+' && c ≠ '-'
  let mantissa := digits.takeWhile fun c => c ≠ 'e' && c ≠ 'E'
  let places := ((mantissa.dropWhile (· ≠ '.')).drop 1).length
  let written := cs.dropWhile fun c => c ≠ 'e' && c ≠ 'E'
  let power := (Variable.integer? (written.drop 1)).getD 0
  Variable.isReal cs && (mantissa.head?.any fun c => c.isDigit || c = '.') &&
    !exceedsDouble ((number? 10 (mantissa.filter (· ≠ '.'))).getD 0) (power - places)

/-- Whether a text is a number that is not whole, or stands for one. -/
def isRealNumber (text : String) : Bool :=
  let unsigned := match text.toList with
    | '+' :: rest => rest
    | rest => rest
  let doubled := text.toList.head? = some '+' &&
    unsigned.head?.any fun c => c = '+' || c = '-'
  if doubled then false
  else if [".inf", ".Inf", ".INF"].contains (String.ofList unsigned) then true
  else if ["-.inf", "-.Inf", "-.INF", ".nan", ".NaN", ".NAN"].contains text then true
  else isFinite unsigned

/-- What a plain scalar is worth by its looks. -/
def plainValue (text : String) : Value :=
  if text = "" || isNull text then .null
  else
    match truth? text with
    | some b => .bool b
    | none =>
      match integer? text.toList with
      | some n => .integer n
      | none =>
        if !hasLeadingZero text.toList && isRealNumber text then .real else .text text

/-- What a scalar with a tag is worth. -/
def taggedValue (tag text : String) : Option Value :=
  if tag.toList.head? = some '!' then none
  else if tag = "tag:yaml.org,2002:bool" then (truth? text).map .bool
  else if tag = "tag:yaml.org,2002:int" then (integer? text.toList).map .integer
  else if tag = "tag:yaml.org,2002:float" then if isRealNumber text then some .real else none
  else if tag = "tag:yaml.org,2002:null" then if isNull text then some .null else none
  else some (.text text)

/-- Whether a collection may carry the tag. -/
def admitsTag (tag : Option String) : Bool :=
  tag.all fun tag => tag.toList.head? ≠ some '!'

/-- The key that a node is. -/
def keyText? : Node → Option String
  | .scalar _ _ text => some text
  | _ => none

/-- What a node is worth, in which collections lie at most `depth` deep. -/
def value? : (depth : Nat) → Node → Option Value
  | _, .scalar none plain text => some (if plain then plainValue text else .text text)
  | _, .scalar (some tag) _ text => taggedValue tag text
  | 0, _ => none
  | depth + 1, .sequence tag items =>
    if admitsTag tag then .list <$> items.mapM (value? depth) else none
  | depth + 1, .mapping tag pairs =>
    if admitsTag tag then
      .dict <$> pairs.foldlM
        (fun (fields : Fields) pair => do
          let key ← keyText? pair.1
          let v ← value? depth pair.2
          some (fields.put key v)) []
    else none

/-- The fields of a document that holds a mapping, or nothing. -/
def fields? (text : String) : Option Fields := do
  match ← document? text with
  | none => some []
  | some (.scalar _ true "") => some []
  | some (.mapping _ pairs) =>
    match ← value? Parser.nesting (.mapping none pairs) with
    | .dict fields => some fields
    | _ => none
  | some _ => none

end BlobCache.Yaml
