import BlobCache.Proofs.Deletion
import BlobCache.Proofs.Work
import BlobCache.Store.Script

/-!
# What an operation does to the tables

Whatever it answers, an operation of a store does one of a few things to the tables:
it adds, moves or deletes rows, it overwrites the recorded total, or it does nothing,
because it only reads or is refused (`Step.effect`).
-/

namespace BlobCache

section

variable {db db' : Db}

/-- Overwriting the recorded total overwrites every row of it, and nothing else. -/
theorem Db.setTotalSize_ok {size : Nat} (h : db.setTotalSize size = .ok ((), db')) :
    ∃ totals, db.globals = some totals ∧
      db' = { db with globals := some (totals.map fun _ => .integer size) } := by
  simp only [setTotalSize, except_bind_eq_ok, storedSize_eq_ok, answered_eq_ok, Except.ok.injEq,
    Prod.mk.injEq, true_and] at h
  obtain ⟨_, ⟨-, rfl⟩, _, hset, rfl⟩ := h
  obtain ⟨totals, htotals, -, rfl⟩ := mapTotals_eq_some.mp hset
  exact ⟨totals, htotals, rfl⟩

/-- An insertion adds an entry of the given size under the id it answers. -/
theorem addEntry_ok {key : String} {size : Nat} {blob id : Int}
    (h : db.addEntry key size blob = .ok (id, db')) :
    (size : Int) ≤ largest ∧ Db.EntryAdded ⟨id, key, size, blob⟩ db db' ∧
      freshId? db.entryIds = some id := by
  simp only [Db.addEntry, except_bind_eq_ok, storedSize_eq_ok, answered_eq_ok] at h
  obtain ⟨_, ⟨hsize, rfl⟩, hinsert⟩ := h
  exact ⟨hsize, Db.insertEntry_added hinsert⟩

/-- A deletion by key deletes what has the key and says whether there was something. -/
theorem deleteEntryByKey_ok {key : String} {found : Bool}
    (h : db.deleteEntryByKey key = .ok (found, db')) :
    ∃ n, db.deleteEntries (·.key = key) = some (n, db') ∧ found = decide (0 < n) := by
  simp only [Db.deleteEntryByKey, except_bind_eq_ok, answered_eq_ok] at h
  obtain ⟨⟨n, _⟩, hdeleted, ⟨⟩⟩ := h
  exact ⟨n, hdeleted, rfl⟩

/-- A promotion moves the entry with the id. -/
theorem promote_ok {id top : Int} (h : db.promote id = .ok (top, db')) :
    ∃ e, e.id = id ∧ Db.EntryMoved e top db db' := by
  simp only [Db.promote, except_bind_eq_ok, answered_eq_ok] at h
  obtain ⟨⟨top?, after⟩, hpromote, h⟩ := h
  cases top? with
  | none => cases h
  | some top =>
      cases h
      exact Db.promoteEntry_moved hpromote

end

namespace Step

/-- The entries an operation is to delete. -/
def doomed : Step → EntryRow → Bool
  | .deleteEntriesThrough id => fun e => e.id ≤ id
  | .deleteEntryByKey key => fun e => e.key = key
  | _ => fun _ => false

/-- What an operation can do to the tables. -/
inductive Effect (db : Db) : Step → Db → Prop
  | nothing (step : Step) : Effect db step db
  | totalSet {size : Nat} {db' : Db} (hset : db.setTotalSize size = .ok ((), db')) :
      Effect db (.setTotalSize size) db'
  | entryAdded {key : String} {size : Nat} {blob id : Int} {db' : Db}
      (hsize : (size : Int) ≤ largest) (hadded : Db.EntryAdded ⟨id, key, size, blob⟩ db db')
      (hid : freshId? db.entryIds = some id) : Effect db (.addEntry key size blob) db'
  | entryMoved {e : EntryRow} {top : Int} {db' : Db} (hmoved : Db.EntryMoved e top db db') :
      Effect db (.promote e.id) db'
  | blobAdded {size : Nat} {id : Int} {db' : Db} (hsize : (size : Int) ≤ largest)
      (hadded : Db.BlobAdded ⟨id, size⟩ db db') (hid : freshId? db.blobIds = some id) :
      Effect db (.addBlob size) db'
  | chunkAdded {row : ChunkRow} {db' : Db} (hadded : Db.ChunkAdded row db db') :
      Effect db (.appendChunk row.blob row.seq row.data) db'
  | deleted {step : Step} {n : Nat} {db' : Db}
      (hdeleted : db.deleteEntries step.doomed = some (n, db')) : Effect db step db'

variable {step : Step} {db : Db}

/-- An operation that goes through leaves what it says, and any other nothing new. -/
theorem run_cases (step : Step) (db : Db) :
    (∃ answer, step.apply db = .ok (answer, (step.run db).2)) ∨ (step.run db).2 = db := by
  unfold run
  cases step.apply db with
  | error e => exact Or.inr rfl
  | ok done => exact Or.inl ⟨done.1, rfl⟩

/-- **What an operation does to the tables.** -/
theorem effect (step : Step) (db : Db) : step.Effect db (step.run db).2 := by
  rcases step.run_cases db with ⟨answer, happly⟩ | hsame
  · generalize (step.run db).2 = db' at happly
    cases step with
    | setTotalSize size =>
        simp only [apply, except_bind_eq_ok] at happly
        obtain ⟨⟨⟨⟩, after⟩, hset, ⟨⟩⟩ := happly
        exact .totalSet hset
    | deleteEntriesThrough id =>
        simp only [apply, except_bind_eq_ok] at happly
        obtain ⟨⟨n, after⟩, hdelete, ⟨⟩⟩ := happly
        exact .deleted (answered_eq_ok.mp hdelete)
    | deleteEntryByKey key =>
        simp only [apply, except_bind_eq_ok] at happly
        obtain ⟨⟨found, after⟩, hdelete, ⟨⟩⟩ := happly
        obtain ⟨n, hdeleted, -⟩ := deleteEntryByKey_ok hdelete
        exact .deleted hdeleted
    | addEntry key size blob =>
        simp only [apply, except_bind_eq_ok] at happly
        obtain ⟨⟨id, after⟩, hadd, ⟨⟩⟩ := happly
        obtain ⟨hsize, hadded, hid⟩ := addEntry_ok hadd
        exact .entryAdded hsize hadded hid
    | promote id =>
        simp only [apply, except_bind_eq_ok] at happly
        obtain ⟨⟨top, after⟩, hpromote, ⟨⟩⟩ := happly
        obtain ⟨e, rfl, hmoved⟩ := promote_ok hpromote
        exact .entryMoved hmoved
    | addBlob size =>
        simp only [apply, except_bind_eq_ok, Db.addBlob, storedSize_eq_ok,
          answered_eq_ok] at happly
        obtain ⟨⟨id, after⟩, ⟨_, ⟨hsize, rfl⟩, hadded⟩, ⟨⟩⟩ := happly
        obtain ⟨hadded, hid⟩ := Db.insertBlob_added hadded
        exact .blobAdded hsize hadded hid
    | appendChunk blob seq data =>
        simp only [apply, except_bind_eq_ok, Db.appendChunk, answered_eq_ok] at happly
        obtain ⟨⟨⟨⟩, after⟩, ⟨_, hadded, ⟨⟩⟩, ⟨⟩⟩ := happly
        exact .chunkAdded (Db.insertChunk_added hadded)
    | tableExists name => cases happly; exact .nothing _
    | evictionCandidates limit => cases happly; exact .nothing _
    | _ =>
        -- the other operations read something and answer it
        simp only [apply, except_bind_eq_ok] at happly
        obtain ⟨_, -, ⟨⟩⟩ := happly
        exact .nothing _
  · rw [hsame]
    exact .nothing step

/-- Insertions, promotions and deletions apart, operations leave the entries alone. -/
theorem Effect.entries_eq {db' : Db} (h : step.Effect db db')
    (hdoomed : ∀ e, step.doomed e = false)
    (hadd : ∀ key size blob, step ≠ .addEntry key size blob)
    (hpromote : ∀ id, step ≠ .promote id) : db'.entries = db.entries := by
  cases h with
  | nothing => rfl
  | totalSet hset =>
      obtain ⟨_, -, rfl⟩ := Db.setTotalSize_ok hset
      rfl
  | entryAdded => exact absurd rfl (hadd _ _ _)
  | entryMoved => exact absurd rfl (hpromote _)
  | blobAdded _ hadded => rw [hadded.frame]
  | chunkAdded hadded => rw [hadded.frame]
  | deleted hdeleted =>
      obtain ⟨-, rfl⟩ := Db.deleteEntries_eq hdeleted
      rw [Db.without_eq_self fun e _ => hdoomed e]

end Step

end BlobCache
