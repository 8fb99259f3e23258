import BlobCache.Store.Records

/-!
# Operations as data

The operations of a store, written down so that whole sequences of them can be
carried out and spoken of.  `Step.run` carries one out; whatever it answers,
the database afterwards is there to go on with, and a failing step leaves it as
it was (`Step.run_error`).
-/

namespace BlobCache

/-- One operation of a store. -/
inductive Step where
  | formatVersion
  | totalSize
  | computedTotalSize
  | setTotalSize (size : Nat)
  | tableExists (name : String)
  | entryCount
  | findEntry (key : String)
  /-- Read the first `limit` candidates, or all of them. -/
  | evictionCandidates (limit : Option Nat)
  | deleteEntriesThrough (id : Int)
  | deleteEntryByKey (key : String)
  | addEntry (key : String) (size : Nat) (blob : Int)
  | promote (id : Int)
  | addBlob (size : Nat)
  | appendChunk (blob seq : Int) (data : Bytes)
  | blobChunks (blob : Int)
deriving DecidableEq, Repr

/-- What an operation answers. -/
inductive Answer where
  | done
  | number (n : Int)
  | version (found : Option Int)
  | flag (b : Bool)
  | entry (found : Option Entry)
  /-- The candidates read, and what stopped the reading if it failed. -/
  | candidates (read : List Entry) (failure : Option StoreError)
  | chunks (data : List Bytes)
deriving DecidableEq, Repr

namespace Step

/-- Read candidates until one of them fails. -/
def readCandidates : List (Except StoreError Entry) → List Entry × Option StoreError
  | [] => ([], none)
  | .error e :: _ => ([], some e)
  | .ok entry :: rest =>
    let (read, failure) := readCandidates rest
    (entry :: read, failure)

/-- What a step answers and leaves behind if it goes through. -/
def apply (db : Db) : Step → Except StoreError (Answer × Db)
  | formatVersion => do return (.version (← db.formatVersion), db)
  | totalSize => do return (.number (← db.totalSize), db)
  | computedTotalSize => do return (.number (← db.computedTotalSize), db)
  | setTotalSize size => do
    let (_, after) ← db.setTotalSize size
    return (.done, after)
  | tableExists name => return (.flag (db.tableExists name), db)
  | entryCount => do return (.number (← db.entryCount), db)
  | findEntry key => do return (.entry (← db.findEntry key), db)
  | evictionCandidates limit =>
    let all := db.evictionCandidates
    let (read, failure) := readCandidates (match limit with
      | some n => all.take n
      | none => all)
    return (.candidates read failure, db)
  | deleteEntriesThrough id => do
    let (count, after) ← db.deleteEntriesThrough id
    return (.number count, after)
  | deleteEntryByKey key => do
    let (found, after) ← db.deleteEntryByKey key
    return (.flag found, after)
  | addEntry key size blob => do
    let (id, after) ← db.addEntry key size blob
    return (.number id, after)
  | promote id => do
    let (top, after) ← db.promote id
    return (.number top, after)
  | addBlob size => do
    let (id, after) ← db.addBlob size
    return (.number id, after)
  | appendChunk blob seq data => do
    let (_, after) ← db.appendChunk blob seq data
    return (.done, after)
  | blobChunks blob => do return (.chunks (← db.blobChunks blob), db)

/-- Carry a step out: its answer, and the database to go on with. -/
def run (step : Step) (db : Db) : Except StoreError Answer × Db :=
  match step.apply db with
  | .ok (answer, after) => (.ok answer, after)
  | .error e => (.error e, db)

/-- A failing step leaves the database as it was. -/
theorem run_error {step : Step} {db : Db} {e : StoreError}
    (h : (step.run db).1 = .error e) : (step.run db).2 = db := by
  simp only [run] at h ⊢
  split <;> simp_all

end Step

/-- The database after a sequence of steps, each carried out on what the ones
before it left behind. -/
def Db.after (db : Db) (steps : List Step) : Db :=
  steps.foldl (fun db step => (step.run db).2) db

end BlobCache
