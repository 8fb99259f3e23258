import BlobCache.Store.Statement

/-!
# Statements no cache issues

A database can be changed by other hands.  These statements reach the states
that the operations of a store do not produce: wrong totals and versions,
missing tables, odd ids and sizes, a ledger that tells another story.  They
obey the same rules as all statements: they are refused as a whole (`none`),
references stay intact, and resizing an entry adjusts the totals.
-/

namespace BlobCache

/-- The tables that can be dropped. -/
inductive TableName where
  | format
  | globals
  | blobs
  | chunks
  | entries
  | ledger
deriving DecidableEq, Repr

/-- The table whose rows a change concerns. -/
def RowChange.table : RowChange → TableName
  | insertEntries => .entries
  | deleteEntries => .entries
  | updateEntries => .entries
  | insertBlobs => .blobs
  | insertChunks => .chunks
  | updateTotal => .globals

namespace Db

/-- Whether the table exists. -/
def hasTable (db : Db) : TableName → Bool
  | .format => db.format.isSome
  | .globals => db.globals.isSome
  | .blobs => db.blobs.isSome
  | .chunks => db.chunks.isSome
  | .entries => db.entries.isSome
  | .ledger => db.ledger.isSome

/-- Write the version into every row of the format table. -/
def setVersions (version : Int) (db : Db) : Option (Nat × Db) := do
  let versions ← db.format
  some (versions.length, { db with format := some (versions.map fun _ => version) })

/-- Add a row to the format table. -/
def addVersion (version : Int) (db : Db) : Option Db := do
  let versions ← db.format
  some { db with format := some (versions ++ [version]) }

/-- Empty the format table. -/
def clearVersions (db : Db) : Option Db := do
  let _ ← db.format
  some { db with format := some [] }

/-- Create an empty format table and nothing else. -/
def createFormat (db : Db) : Option Db :=
  if db.format.isSome then none else some { db with format := some [] }

/-- Write the total into every row of the globals table. -/
def setTotals (total : Int) (db : Db) : Option (Nat × Db) := do
  let totals ← db.globals
  let after ← db.mapTotals fun _ => .integer total
  some (totals.length, after)

/-- Add a row to the globals table. -/
def addTotal (total : Int) (db : Db) : Option Db := do
  let totals ← db.globals
  some { db with globals := some (totals ++ [.integer total]) }

/-- Empty the globals table. -/
def clearTotals (db : Db) : Option Db := do
  let _ ← db.globals
  some { db with globals := some [] }

/-- Exchange the entry for a key by what `f` makes of it and count the entries
changed. -/
def reviseEntry (key : String) (f : EntryRow → EntryRow) (db : Db) :
    Option (Nat × Db) := do
  let entries ← db.entries
  match entries.rows.find? (·.key = key) with
  | none => some (0, db)
  | some e =>
    if !db.admits .updateEntries then none
    let changed ← entries.replace e (f e)
    some (1, { db with entries := some changed })

/-- Give the entry for a key another id, which must be free. -/
def setEntryId (key : String) (id : Int) (db : Db) : Option (Nat × Db) :=
  db.reviseEntry key fun e => { e with id }

/-- Give the entry for a key another size; the totals follow. -/
def setEntrySize (key : String) (size : Int) (db : Db) : Option (Nat × Db) := do
  let entries ← db.entries
  let _ ← db.globals
  let (count, after) ← db.reviseEntry key fun e => { e with size }
  match entries.rows.find? (·.key = key) with
  | none => some (count, after)
  | some e =>
    let counted ← after.mapTotals fun t => ((t.add size).sub e.size).stored
    some (count, counted)

/-- Give the entry for a key another blob, which must exist.  The old blob
stays. -/
def setEntryBlob (key : String) (blob : Int) (db : Db) : Option (Nat × Db) := do
  let blobs ← db.blobs
  let (count, after) ← db.reviseEntry key fun e => { e with blob }
  if count = 0 || blobs.rows.any (·.id = blob) then some (count, after) else none

/-- Delete one chunk and count it; refused without the table of blobs, to which
chunks refer. -/
def deleteChunk (blob seq : Int) (db : Db) : Option (Nat × Db) := do
  let chunks ← db.chunks
  let _ ← db.blobs
  let kept := chunks.filter fun c => !(c.blob = blob && c.seq = seq)
  some (chunks.rows.length - kept.rows.length, { db with chunks := some kept })

/-- Delete a blob with its chunks and count it; refused while an entry refers
to it. -/
def deleteBlob (blob : Int) (db : Db) : Option (Nat × Db) := do
  let blobs ← db.blobs
  if !blobs.rows.any (·.id = blob) then some (0, db)
  else if db.refersTo blob then none
  else some (1, db.dropBlob blob)

/-- Drop a table with its rows; what was refused of its rows is forgotten.
Blobs take their chunks along, and stay while an entry refers to one. -/
def dropTable (name : TableName) (db : Db) : Option Db :=
  if !db.hasTable name then none
  else
    let db := { db with refused := db.refused.filter (·.table ≠ name) }
    match name with
    | .format => some { db with format := none }
    | .globals => some { db with globals := none }
    | .entries => some { db with entries := none }
    | .chunks => some { db with chunks := none }
    | .ledger => some { db with ledger := none }
    | .blobs =>
      if db.blobRows.any fun b => db.refersTo b.id then none
      else
        some { db with
          blobs := none
          chunks := db.chunks.map (·.filter fun c => !db.blobIds.contains c.blob) }

/-- Forget all migrations. -/
def clearLedger (db : Db) : Option Db := do
  let _ ← db.ledger
  some { db with ledger := some [] }

/-- Change every migration on record. -/
def mapLedger (f : Migration → Migration) (db : Db) : Option Db := do
  let ledger ← db.ledger
  some { db with ledger := some (ledger.map f) }

/-- Put a migration on record; a version occurs once. -/
def addMigration (migration : Migration) (db : Db) : Option Db := do
  let ledger ← db.ledger
  if ledger.any (·.version = migration.version) then none
  else some { db with ledger := some (ledger ++ [migration]) }

/-- From now on refuse every row change of this kind. -/
def refuse (change : RowChange) (db : Db) : Option Db :=
  if db.hasTable change.table && db.admits change then
    some { db with refused := db.refused ++ [change] }
  else
    none

end Db

end BlobCache
