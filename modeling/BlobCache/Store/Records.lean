import BlobCache.Store.Error
import BlobCache.Store.Statement

/-!
# The operations of a store

What a cache asks of its database.  Byte counts are natural numbers here and
signed 64-bit integers in the tables; a count that does not fit is refused
before any statement runs (`storedSize`), and a stored size below zero is
refused when it is read.  A refused statement is a `database` error.
-/

namespace BlobCache

/-- What is known of one cached payload. -/
structure Entry where
  /-- Larger ids were used more recently. -/
  id : Int
  key : String
  /-- The length of the payload in bytes. -/
  size : Nat
  blob : Int
deriving DecidableEq, Repr

/-- The answer of a statement, where a refusal is a `database` error. -/
def answered {α : Type} : Option α → Except StoreError α
  | some a => .ok a
  | none => .error .database

/-- The byte count as a column can hold it. -/
def storedSize (size : Nat) : Except StoreError Int :=
  if (size : Int) ≤ largest then .ok size else .error (.invalidData "size")

/-- The byte count that a column holds; `what` says which one it is. -/
def readSize (what : String) (size : Int) : Except StoreError Nat :=
  if 0 ≤ size then .ok size.toNat else .error (.invalidData what)

/-- An entry as it is handed out. -/
def EntryRow.entry (row : EntryRow) : Except StoreError Entry := do
  let size ← readSize "entry size" row.size
  .ok { id := row.id, key := row.key, size, blob := row.blob }

namespace Db

/-- The format version, if there is one on record. -/
def formatVersion (db : Db) : Except StoreError (Option Int) := do
  let versions ← answered db.format
  .ok versions.head?

/-- The total size of all entries, as recorded. -/
def totalSize (db : Db) : Except StoreError Nat := do
  match ← answered db.globals with
  | [] => .error (.invalidData "missing total size")
  | .integer n :: _ => readSize "size" n
  | .real _ :: _ => .error .database

/-- The total size of all entries, added up from the entries. -/
def computedTotalSize (db : Db) : Except StoreError Nat := do
  let entries ← answered db.entries
  let sum ← answered (checkedSum 0 (entries.rows.map (·.size)))
  readSize "size" sum

/-- Overwrite the recorded total. -/
def setTotalSize (size : Nat) (db : Db) : Except StoreError (Unit × Db) := do
  let n ← storedSize size
  let after ← answered (db.mapTotals fun _ => .integer n)
  .ok ((), after)

/-- Whether there is a table of this name. -/
def tableExists (name : String) (db : Db) : Bool :=
  db.tableNames.contains name

def entryCount (db : Db) : Except StoreError Nat := do
  let entries ← answered db.entries
  .ok entries.rows.length

/-- The entry for a key, if there is one. -/
def findEntry (key : String) (db : Db) : Except StoreError (Option Entry) := do
  let entries ← answered db.entries
  match entries.rows.find? (·.key = key) with
  | none => .ok none
  | some row => some <$> row.entry

/-- All entries, least recently used first, each read on its own: a reader who
stops early does not see the failures further on. -/
def evictionCandidates (db : Db) : List (Except StoreError Entry) :=
  match db.entries with
  | none => [.error .database]
  | some entries => entries.rows.map EntryRow.entry

/-- Delete every entry with an id up to `id`, and count them. -/
def deleteEntriesThrough (id : Int) (db : Db) : Except StoreError (Nat × Db) :=
  answered (db.deleteEntries (·.id ≤ id))

/-- Delete the entry for a key; says whether there was one. -/
def deleteEntryByKey (key : String) (db : Db) : Except StoreError (Bool × Db) := do
  let (count, after) ← answered (db.deleteEntries (·.key = key))
  .ok (decide (0 < count), after)

/-- Insert an entry for an existing blob and return its id.  The key must be
new. -/
def addEntry (key : String) (size : Nat) (blob : Int) (db : Db) :
    Except StoreError (Int × Db) := do
  let n ← storedSize size
  answered (db.insertEntry key n blob)

/-- Make an entry the most recently used one and return its new id. -/
def promote (id : Int) (db : Db) : Except StoreError (Int × Db) := do
  match ← answered (db.promoteEntry id) with
  | (some top, after) => .ok (top, after)
  | (none, _) => .error (.invalidData "promoted entry vanished")

/-- Insert an empty blob of the declared size and return its id. -/
def addBlob (size : Nat) (db : Db) : Except StoreError (Int × Db) := do
  let n ← storedSize size
  answered (db.insertBlob n)

/-- Give a blob the chunk with the number `seq`. -/
def appendChunk (blob seq : Int) (data : Bytes) (db : Db) :
    Except StoreError (Unit × Db) := do
  let after ← answered (db.insertChunk blob seq data)
  .ok ((), after)

/-- The chunks of a blob, in reading order. -/
def blobChunks (blob : Int) (db : Db) : Except StoreError (List Bytes) := do
  let chunks ← answered db.chunks
  .ok ((chunks.rows.filter (·.blob = blob)).map (·.data))

end Db

end BlobCache
