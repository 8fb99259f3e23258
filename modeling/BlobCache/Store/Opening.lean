import BlobCache.Store.Transaction

/-!
# Opening a store

A database is usable when it carries the current schema, the current format
version, and a recorded total that is the sum of all sizes.  Opening creates
the schema in a database without one (`migrate`), refuses any other version,
and corrects a wrong total (`checkAndRepair`).

The ledger decides whether the schema is to be created.  A database that has a
format table and no ledger was not made here; its schema is left alone, and the
version check decides.
-/

namespace BlobCache

/-- The format version of the schema that is created here. -/
def currentFormat : Int := 1

/-- The migration that creates the schema. -/
def schemaMigration : Migration := { version := 1, succeeded := true, genuine := true }

/-- Where a store keeps its data. -/
inductive Location where
  /-- In memory, for as long as the store is open. -/
  | memory
  /-- In a file, which is created if it does not exist. -/
  | file (path : String)
deriving DecidableEq, Repr

/-- How a location is shown. -/
def Location.text : Location → String
  | memory => ":memory:"
  | file path => path

namespace Db

/-- Create the tables of the schema and put the migration on record; refused if
one of the tables exists. -/
def createSchema (ledger : List Migration) (db : Db) : Option Db :=
  if db.format.isSome || db.globals.isSome || db.blobs.isSome || db.chunks.isSome ||
      db.entries.isSome then
    none
  else
    some { db with
      format := some [currentFormat]
      globals := some [.integer 0]
      blobs := some ∅
      chunks := some ∅
      entries := some ∅
      ledger := some (ledger ++ [schemaMigration]) }

/-- Bring the schema up to date.  Migrations of other versions are ignored; a
failed one on record, or one that is not what it is known to be, is an error. -/
def migrate (location : String) (db : Db) : Outcome StoreError Unit :=
  if db.format.isSome && db.ledger.isNone then
    ⟨.ok (), db, [.migrationsSkipped location]⟩
  else
    let ledger := db.ledger.getD []
    let db := { db with ledger := some ledger }
    if ledger.any (!·.succeeded) then ⟨.error .migration, db, []⟩
    else
      match ledger.find? (·.version = schemaMigration.version) with
      | some known => ⟨if known.genuine then .ok () else .error .migration, db, []⟩
      | none =>
        match db.createSchema ledger with
        | some created => ⟨.ok (), created, []⟩
        | none => ⟨.error .migration, db, []⟩

end Db

/-- Refuse any format version but the current one, and make the recorded total
the sum of all sizes. -/
def checkAndRepair (location : String) : Work StoreError Unit := do
  let found ← Work.query id Db.formatVersion
  if found ≠ some currentFormat then
    throw (.unsupportedVersion found currentFormat)
  let stored ← Work.query id Db.totalSize
  let computed ← Work.query id Db.computedTotalSize
  if stored ≠ computed then
    Work.report (.totalRepaired location stored computed)
    Work.change id (Db.setTotalSize computed)

/-- Make a database ready for use as a store. -/
def Db.open (location : String) (db : Db) : Outcome StoreError Unit :=
  let migrated := db.migrate location
  match migrated.result with
  | .error e => { migrated with result := .error e }
  | .ok () =>
    let checked := transact (checkAndRepair location) migrated.db
    { checked with log := migrated.log ++ checked.log }

end BlobCache
