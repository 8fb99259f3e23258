import BlobCache.Config.Value

/-!
# What a TOML document may define where

A document is a list of definitions by place.  A place is a table, written out
under a header or only implied by longer names, a list of tables, or a value.
Nothing is defined twice: a header may take over a table that other headers
imply, and a dotted key may go on in a table that dotted keys made, but neither
may reach into what the other defined.
-/

namespace BlobCache.Toml

/-- One step to a place: a key, or the number of a table in a list. -/
inductive Part where
  | key (name : String)
  | index (n : Nat)
deriving DecidableEq, Repr

/-- A place in a document. -/
abbrev Place := List Part

/-- What is defined at a place. -/
inductive Definition where
  /-- A table; `implied` if no header names it, `dotted` if dotted keys made
  it. -/
  | table (implied dotted : Bool)
  /-- A list of this many tables. -/
  | tables (count : Nat)
  | value (v : Value)

/-- The definitions of a document. The root is a table of its own. -/
structure Document where
  defs : List (Place × Definition) := []

namespace Document

def find? (doc : Document) (place : Place) : Option Definition :=
  if place = [] then some (.table false false)
  else (doc.defs.find? fun d => d.1 = place).map (·.2)

def define (doc : Document) (place : Place) (d : Definition) : Document :=
  { defs := doc.defs.filter (fun other => other.1 ≠ place) ++ [(place, d)] }

/-- Go from a table to the table that the keys lead to, making those that are
missing; `dotted` if the keys stand in a dotted key. -/
def descend (dotted : Bool) : Document → Place → List String → Option (Document × Place)
  | doc, place, [] => some (doc, place)
  | doc, place, key :: rest =>
    let inner := place ++ [.key key]
    match doc.find? inner with
    | none => descend dotted (doc.define inner (.table true dotted)) inner rest
    | some (.table implied _) =>
      if dotted && !implied then none else descend dotted doc inner rest
    | some (.tables count) => descend dotted doc (inner ++ [.index (count - 1)]) rest
    | some (.value _) => none

/-- Start the table of a header: the document and the place of the table. -/
def startTable (doc : Document) (keys : List String) (last : String) :
    Option (Document × Place) := do
  let (doc, above) ← doc.descend false [] keys
  let place := above ++ [.key last]
  match doc.find? place with
  | none | some (.table true false) => some (doc.define place (.table false false), place)
  | _ => none

/-- Start one more table in the list of a header. -/
def startListed (doc : Document) (keys : List String) (last : String) :
    Option (Document × Place) := do
  let (doc, above) ← doc.descend false [] keys
  let place := above ++ [.key last]
  let count ← match doc.find? place with
    | none => some 0
    | some (.tables count) => some count
    | _ => none
  let inner := place ++ [.index count]
  some ((doc.define place (.tables (count + 1))).define inner (.table false false), inner)

/-- Give a key, dotted by `keys`, a value in the table at `place`. -/
def assign (doc : Document) (place : Place) (keys : List String) (last : String)
    (v : Value) : Option Document := do
  let (doc, above) ← doc.descend true place keys
  let madeByDots := match doc.find? above with
    | some (.table _ dotted) => dotted
    | _ => false
  let inner := above ++ [.key last]
  if madeByDots = keys.isEmpty then none
  else if (doc.find? inner).isSome then none
  else some (doc.define inner (.value v))

/-- The fields of the table at a place; tables lie at most `depth` deep in
it. -/
def fieldsAt (doc : Document) : (depth : Nat) → Place → Fields
  | 0, _ => []
  | depth + 1, place =>
    doc.defs.filterMap fun (other, d) =>
      match other.getLast? with
      | some (.key name) =>
        if other.dropLast ≠ place then none
        else
          some (name, match d with
            | .value v => v
            | .table .. => .dict (doc.fieldsAt depth other)
            | .tables count =>
              .list ((List.range count).map fun n =>
                .dict (doc.fieldsAt depth (other ++ [.index n]))))
      | _ => none

/-- The fields of the document. -/
def fields (doc : Document) : Fields := doc.fieldsAt (doc.defs.length + 1) []

end Document

end BlobCache.Toml
