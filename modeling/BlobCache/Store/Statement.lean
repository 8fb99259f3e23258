import BlobCache.Store.Database

/-!
# Statements

A statement changes a database or is refused as a whole (`none`), in which case
the database is as before.  Three rules act inside a statement:

* inserting, resizing or deleting an entry adds to the recorded totals what it
  adds to the sum of all sizes;
* deleting the last entry of a blob deletes the blob, and a blob that is deleted
  takes its chunks along;
* an entry and a chunk need their blob.

A rule that needs a missing table refuses the statement even if no row is
concerned.  New ids follow the largest one present, so the id of a deleted
maximum is given out again; above the largest id there is room for no more
promotions, but for more rows (`freshId?`).
-/

namespace BlobCache

/-- The id after the largest one in use, unless that is the largest there is. -/
def following? (last : Int) : Option Int :=
  if last < largest then some (last + 1) else none

theorem following?_eq_some {last id : Int} :
    following? last = some id ↔ last < largest ∧ id = last + 1 := by
  rw [following?]
  split
  · simp only [Option.some.injEq, eq_comm, *, true_and]
  · simp only [reduceCtorEq, *, false_and]

/-- An unused id for a row that no largest id is left for.  Which of the ids from
1 to `2 ^ 62` such a row gets is left to chance; this is one that can be drawn,
the first from `2 ^ 62` downwards that is not in use.  That it is not in use is all
that can be relied on. -/
def unusedId? (ids : List Int) : Option Int :=
  ((List.range (ids.length + 1)).map fun n : Nat => Int.ofNat (1 <<< 62) - n).find?
    fun id => !ids.contains id

/-- The id for a new row of a table whose ids are `ids`, in ascending order:
the one that follows the largest, 1 in an empty table, and when no id follows an
unused one, in place of one drawn at random. -/
def freshId? (ids : List Int) : Option Int :=
  match ids.getLast? with
  | none => some 1
  | some last => (following? last).or (unusedId? ids)

namespace Db

/-- The ids of all entries, in ascending order. -/
def entryIds (db : Db) : List Int := db.entryRows.map (·.id)

/-- The ids of all blobs, in ascending order. -/
def blobIds (db : Db) : List Int := db.blobRows.map (·.id)

/-- Whether some entry refers to the blob. -/
def refersTo (db : Db) (blob : Int) : Bool :=
  db.entryRows.any (·.blob = blob)

/-- Change every recorded total. -/
def mapTotals (f : Amount → Amount) (db : Db) : Option Db := do
  let totals ← db.globals
  if totals.isEmpty || db.admits .updateTotal then
    some { db with globals := some (totals.map f) }
  else
    none

/-- Take a blob and its chunks out of the tables.  A blob that is not there takes
nothing along, not even chunks that are left of it. -/
def dropBlob (blob : Int) (db : Db) : Db :=
  if db.blobIds.contains blob then
    { db with
      blobs := db.blobs.map (·.filter (·.id ≠ blob))
      chunks := db.chunks.map (·.filter (·.blob ≠ blob)) }
  else
    db

/-- Drop the blob unless an entry still refers to it. -/
def collectBlob (blob : Int) (db : Db) : Db :=
  if db.refersTo blob then db else db.dropBlob blob

/-- Delete one entry: it leaves its table, its size leaves the totals, and its
blob is dropped if this was the last reference. -/
def deleteEntry (db : Db) (e : EntryRow) : Option Db := do
  let entries ← db.entries
  if !db.admits .deleteEntries then none
  let shorter := { db with entries := some (entries.filter (·.id ≠ e.id)) }
  let counted ← shorter.mapTotals fun t => (t.sub e.size).stored
  some (counted.collectBlob e.blob)

/-- Delete the entries that satisfy `p`, smallest id first, and count them. -/
def deleteEntries (p : EntryRow → Bool) (db : Db) : Option (Nat × Db) := do
  let entries ← db.entries
  let _ ← db.globals
  let _ ← db.blobs
  let doomed := entries.rows.filter p
  let after ← doomed.foldlM deleteEntry db
  some (doomed.length, after)

/-- Insert an entry for an existing blob and return its id. -/
def insertEntry (key : String) (size blob : Int) (db : Db) : Option (Int × Db) := do
  let entries ← db.entries
  let blobs ← db.blobs
  let _ ← db.globals
  if !db.admits .insertEntries then none
  if !blobs.rows.any (·.id = blob) then none
  let id ← freshId? db.entryIds
  let longer ← entries.insert? { id, key, size, blob }
  let counted ← ({ db with entries := some longer } : Db).mapTotals
    fun t => (t.add size).stored
  some (id, counted)

/-- Give an entry the id after the largest one; `none` inside if there is no
such entry. -/
def promoteEntry (id : Int) (db : Db) : Option (Option Int × Db) := do
  let entries ← db.entries
  match entries.rows.find? (·.id = id) with
  | none => some (none, db)
  | some e =>
    if !db.admits .updateEntries then none
    let last ← db.entryIds.getLast?
    let top ← following? last
    let moved ← entries.replace e { e with id := top }
    some (some top, { db with entries := some moved })

/-- Insert a blob without chunks and return its id. -/
def insertBlob (size : Int) (db : Db) : Option (Int × Db) := do
  let blobs ← db.blobs
  if !db.admits .insertBlobs then none
  let id ← freshId? db.blobIds
  let longer ← blobs.insert? { id, size }
  some (id, { db with blobs := some longer })

/-- Insert a chunk of an existing blob. -/
def insertChunk (blob seq : Int) (data : Bytes) (db : Db) : Option Db := do
  let chunks ← db.chunks
  let blobs ← db.blobs
  if !db.admits .insertChunks then none
  if !blobs.rows.any (·.id = blob) then none
  let longer ← chunks.insert? { blob, seq, data }
  some { db with chunks := some longer }

end Db

end BlobCache
