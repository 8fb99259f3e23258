import BlobCache.Proofs.Copying
import BlobCache.Proofs.Effect
import BlobCache.Proofs.Eviction

/-!
# What the operations of a tier do

A put either caches its payload or leaves the database as it was
(`tryPut_cases`).  One that caches it makes room, by evicting entries, and then
fills it: a blob is added, the old entry of the key goes, the new one comes, and
the chunks are copied.  `Writing` and `Filling` name the databases on this way
and say what leads from each to the next.

A get either finds the payload and moves its entry to the end of the order of
use, or leaves the database as it was (`tryGet_cases`).  The bookkeeping only
reads (`stats_db`).
-/

namespace BlobCache

variable {tier : Tier} {key path : String} {file : Readable} {source : Source}
  {directory : Option String} {db db' : Db} {fin : Progress}

/-- A database with one entry, whose payload is stored in one piece.  The sizes need
not be right. -/
def Db.single (key : String) (size : Int) (payload : Bytes) (total : Int) : Db where
  format := some [currentFormat]
  globals := some [.integer total]
  blobs := some ⟨[⟨1, size⟩], by simp, by simp⟩
  chunks := some ⟨[⟨1, 0, payload⟩], by simp, by simp⟩
  entries := some ⟨[⟨1, key, size, 1⟩], by simp, by simp⟩
  ledger := some [schemaMigration]

/-- How the payload of `file` gets under `key` where there is room for it. -/
structure Filling (key : String) (file : Readable) (db db' : Db) where
  blob : Int
  id : Int
  stocked : Db
  listed : Db
  blobId : freshId? db.blobIds = some blob
  added : Db.BlobAdded ⟨blob, file.size⟩ db stocked
  entryId : freshId? (stocked.without (·.key = key)).entryIds = some id
  entered : Db.EntryAdded ⟨id, key, file.size, blob⟩ (stocked.without (·.key = key)) listed
  long : file.size ≤ file.content.length
  frame : db' = { listed with chunks := db'.chunks }
  copied : listed.chunkRowsOf blob = [] →
    Db.Copied blob (pieces blob 0 (file.content.take file.size)) listed db'

/-- How the payload of `file` gets under `key`, from `db` to `db'`. -/
structure Writing (tier : Tier) (key : String) (file : Readable) (db db' : Db) where
  total : Nat
  taken : List EntryRow
  rest : List EntryRow
  roomy : Db
  recorded : db.totalSize = .ok total
  evicted : Evicted (tier.required total file.size) taken rest db roomy
  filling : Filling key file roomy db'

/-- The new entry takes the place of the old one of its key. -/
theorem Filling.entryRows_eq (f : Filling key file db db') :
    db'.entryRows = Table.place ⟨f.id, key, file.size, f.blob⟩
      (db.entryRows.filter fun e => !decide (e.key = key)) := by
  have hlisted : db'.entryRows = f.listed.entryRows :=
    (congrArg Db.entryRows f.frame).trans rfl
  rw [hlisted, f.entered.rows, Db.entryRows_without, f.added.entryRows_eq]

/-- Where nothing has to go, the database without anything is the database. -/
theorem Evicted.nothing (db : Db) : Evicted 0 [] db.entryRows db db where
  rows := rfl
  readable := by simp
  enough := Nat.zero_le _
  shortest := by simp
  left := (Db.without_eq_self fun e _ => by simp).symm

/-! ## Putting -/

namespace Tier

/-- The first part of a put: make room for `size` bytes. -/
def makeRoom (tier : Tier) (size : Nat) : Work CacheError Unit := do
  let total ← Work.query .store Db.totalSize
  if tier.budget < satAdd total size then tier.evict total size

/-- The second part of a put: write what there is room for. -/
def fill (key path : String) (file : Readable) : Work CacheError Unit := do
  let blob ← Work.change (fun _ => .storeWrite) (Db.addBlob file.size)
  let _ ← Work.change .store (Db.deleteEntryByKey key)
  let _ ← Work.change (fun _ => .storeWrite) (Db.addEntry key file.size blob)
  copyIn path blob 0 file.size file.content

theorem writeEntry_eq (tier : Tier) (key path : String) (file : Readable) :
    tier.writeEntry key path file = (do tier.makeRoom file.size; fill key path file) := by
  simp only [writeEntry, makeRoom, fill, bind_assoc]
  congr 1
  funext total
  split
  · rfl
  · rw [pure_bind]

theorem makeRoom_ok {size : Nat} (h : tier.makeRoom size { db } = .ok () fin) :
    ∃ total taken rest, db.totalSize = .ok total ∧
      Evicted (tier.required total size) taken rest db fin.db := by
  simp only [makeRoom, Work.bind_ok, Work.query_ok_iff] at h
  obtain ⟨total, _, ⟨hrecorded, rfl⟩, h⟩ := h
  split at h
  · obtain ⟨taken, rest, hevicted⟩ := evict_ok h
    exact ⟨total, taken, rest, hrecorded, hevicted⟩
  · obtain ⟨-, rfl⟩ := Work.pure_ok.mp h
    have hnone : tier.required total size = 0 := by
      unfold required
      omega
    exact ⟨total, [], db.entryRows, hrecorded, hnone ▸ Evicted.nothing db⟩

theorem fill_ok {now : Progress} (h : fill key path file now = .ok () fin) :
    Nonempty (Filling key file now.db fin.db) := by
  simp only [fill, Work.bind_ok, Work.change_ok_iff, Db.addBlob, Db.deleteEntryByKey, Db.addEntry,
    except_bind_eq_ok, storedSize_eq_ok, answered_eq_ok] at h
  obtain ⟨blob, _, ⟨stocked, ⟨_, ⟨-, rfl⟩, hblob⟩, rfl⟩, _, _, ⟨cleared, ⟨⟨count, _⟩, hdelete, ⟨⟩⟩,
    rfl⟩, id, _, ⟨listed, ⟨_, ⟨-, rfl⟩, hentry⟩, rfl⟩, hcopy⟩ := h
  obtain ⟨-, rfl⟩ := Db.deleteEntries_eq hdelete
  obtain ⟨hadded, hblobId⟩ := Db.insertBlob_added hblob
  obtain ⟨hentered, hentryId⟩ := Db.insertEntry_added hentry
  obtain ⟨hlong, hframe⟩ := copyIn_frame hcopy
  exact ⟨{
    blob, id, stocked, listed
    blobId := hblobId
    added := hadded
    entryId := hentryId
    entered := hentered
    long := hlong
    frame := hframe
    copied := fun hnone => copyIn_ok hcopy (by simp [hnone]) }⟩

/-- **A put that is done with its work has gone all the way.** -/
theorem writeEntry_ok (h : tier.writeEntry key path file { db } = .ok () fin) :
    Nonempty (Writing tier key file db fin.db) := by
  rw [writeEntry_eq] at h
  obtain ⟨⟨⟩, mid, hroom, hfill⟩ := Work.bind_ok.mp h
  obtain ⟨total, taken, rest, hrecorded, hevicted⟩ := makeRoom_ok hroom
  obtain ⟨filling⟩ := fill_ok hfill
  exact ⟨{ total, taken, rest, roomy := mid.db, recorded := hrecorded, evicted := hevicted,
           filling }⟩

/-- **A put caches its payload, or it changes nothing.** -/
theorem tryPut_cases (tier : Tier) (key : String) (source : Source) (db : Db) :
    (∃ file, source.opened = some file ∧ file.size ≤ tier.budget ∧ tier.isOpen = true ∧
      (tier.tryPut key source db).result = .ok .cached ∧
      Nonempty (Writing tier key file db (tier.tryPut key source db).db)) ∨
    ((tier.tryPut key source db).result ≠ .ok .cached ∧
      (tier.tryPut key source db).db = db) := by
  unfold tryPut
  cases hopened : source.opened with
  | none => exact Or.inr ⟨by simp, rfl⟩
  | some file =>
      simp only
      split
      · exact Or.inr ⟨by simp, rfl⟩
      · rename_i hsize
        split
        · exact Or.inr ⟨by simp, rfl⟩
        · rename_i hopen
          rcases transact_cases (tier.writeEntry key source.path file) db with
            ⟨⟨⟩, fin, hwork, hresult, hdb⟩ | ⟨e, hresult, hdb⟩
          · simp only [hresult, hdb]
            exact Or.inl ⟨file, rfl, Nat.not_lt.mp hsize, by simpa using hopen, trivial,
              writeEntry_ok hwork⟩
          · simp only [hresult, hdb]
            exact Or.inr ⟨by simp, trivial⟩

end Tier

/-! ## Getting -/

/-- A look-up finds that no entry has the key, or a readable one that has. -/
theorem findEntry_ok {found : Option Entry} (h : db.findEntry key = .ok found) :
    (found = none ∧ ∀ e ∈ db.entryRows, e.key ≠ key) ∨
    ∃ e entry, e ∈ db.entryRows ∧ e.key = key ∧ e.entry = .ok entry ∧ found = some entry := by
  simp only [Db.findEntry, except_bind_eq_ok, answered_eq_ok] at h
  obtain ⟨entries, hentries, h⟩ := h
  rw [Db.entryRows_of_some hentries]
  cases hlook : entries.rows.find? (·.key = key) with
  | none =>
      simp only [hlook, Except.ok.injEq] at h
      refine Or.inl ⟨h.symm, ?_⟩
      intro e he hkey
      exact List.find?_eq_none.mp hlook e he (by simpa using hkey)
  | some e =>
      simp only [hlook] at h
      have hkey : e.key = key := by simpa using List.find?_some hlook
      cases hentry : e.entry with
      | error cause =>
          rw [hentry] at h
          cases h
      | ok entry =>
          rw [hentry] at h
          cases h
          exact Or.inr ⟨e, entry, List.mem_of_find?_eq_some hlook, hkey, hentry, rfl⟩

/-- The chunks that are handed out are those of the blob. -/
theorem blobChunks_eq_ok {blob : Int} {chunks : List Bytes} :
    db.blobChunks blob = .ok chunks ↔ db.chunks.isSome ∧ chunks = db.chunksOf blob := by
  simp only [Db.blobChunks, except_bind_eq_ok, answered_eq_ok, Except.ok.injEq, Db.chunksOf,
    Db.chunkRows]
  cases db.chunks with
  | none => simp
  | some t => simp [eq_comm]

namespace Tier

/-- What is extracted are the chunks of the blob, as long as the entry says. -/
theorem extract_ok {entry : Entry} {found : Extracted} {now : Progress}
    (h : extract directory entry now = .ok found fin) :
    fin = now ∧ directory = some found.directory ∧
      found.content = (now.db.chunksOf entry.blob).flatten ∧
      (now.db.chunksOf entry.blob).flatten.length = entry.size := by
  unfold extract at h
  cases directory with
  | none => simp at h
  | some d =>
      simp only [Work.bind_ok, Work.query_ok_iff, blobChunks_eq_ok] at h
      obtain ⟨_, _, ⟨⟨-, rfl⟩, rfl⟩, h⟩ := h
      split at h
      · simp at h
      · rename_i hlength
        obtain ⟨rfl, rfl⟩ := Work.pure_ok.mp h
        exact ⟨rfl, rfl, rfl, Decidable.not_not.mp hlength⟩

/-- A get that is done with its work has missed, or has found a payload and moved
its entry. -/
theorem readEntry_ok {found : Option Extracted}
    (h : tier.readEntry directory key { db } = .ok found fin) :
    (found = none ∧ fin.db = db ∧ ∀ e ∈ db.entryRows, e.key ≠ key) ∨
    ∃ e top d, e.key = key ∧ 0 ≤ e.size ∧ directory = some d ∧
      Db.EntryMoved e top db fin.db ∧
      found = some ⟨d, (db.chunksOf e.blob).flatten⟩ ∧
      (db.chunksOf e.blob).flatten.length = e.size.toNat := by
  simp only [readEntry, Work.bind_ok, Work.query_ok_iff] at h
  obtain ⟨_, _, ⟨hfind, rfl⟩, h⟩ := h
  rcases findEntry_ok hfind with ⟨rfl, hnone⟩ | ⟨e, entry, he, hkey, hentry, rfl⟩
  · simp only [Work.bind_ok, Work.report_ok, Work.pure_ok] at h
    obtain ⟨_, _, rfl, rfl, rfl⟩ := h
    exact Or.inl ⟨rfl, rfl, hnone⟩
  · obtain ⟨hsize, rfl⟩ := EntryRow.entry_eq_ok.mp hentry
    simp only [Work.bind_ok, Work.change_ok_iff] at h
    obtain ⟨top, _, ⟨moved, hpromote, rfl⟩, got, _, hextract, _, _, hreport, hfound⟩ := h
    obtain ⟨x, hid, hmoved⟩ := promote_ok hpromote
    obtain rfl := Db.entry_eq_of_id hmoved.mem he hid
    obtain ⟨rfl, hdirectory, hcontent, hlength⟩ := extract_ok hextract
    obtain rfl := Work.report_ok.mp hreport
    obtain ⟨rfl, rfl⟩ := Work.pure_ok.mp hfound
    have hchunks : moved.chunksOf x.blob = db.chunksOf x.blob := by
      rw [hmoved.frame]
      rfl
    obtain ⟨d, content⟩ := got
    rw [hchunks] at hlength
    obtain rfl : content = (db.chunksOf x.blob).flatten := hcontent.trans (by rw [hchunks])
    exact Or.inr ⟨x, top, d, hkey, hsize, hdirectory, hmoved, rfl, hlength⟩

/-- **A get finds a payload and makes it the last used, or it changes nothing.** -/
theorem tryGet_cases (tier : Tier) (directory : Option String) (key : String) (db : Db) :
    (∃ e top d, e.key = key ∧ 0 ≤ e.size ∧ directory = some d ∧
      Db.EntryMoved e top db (tier.tryGet directory key db).db ∧
      (tier.tryGet directory key db).result =
        .ok (some ⟨d, (db.chunksOf e.blob).flatten⟩) ∧
      (db.chunksOf e.blob).flatten.length = e.size.toNat) ∨
    ((∀ found, (tier.tryGet directory key db).result ≠ .ok (some found)) ∧
      (tier.tryGet directory key db).db = db) := by
  unfold tryGet
  split
  · rcases transact_cases (tier.readEntry directory key) db with
      ⟨found, fin, hwork, hresult, hdb⟩ | ⟨e, hresult, hdb⟩
    · rcases readEntry_ok hwork with ⟨rfl, hsame, -⟩ | ⟨e, top, d, hkey, hsize, hdir, hmoved,
        rfl, hlength⟩
      · exact Or.inr ⟨by simp [hresult], hdb.trans hsame⟩
      · rw [← hdb] at hmoved
        exact Or.inl ⟨e, top, d, hkey, hsize, hdir, hmoved, hresult, hlength⟩
    · exact Or.inr ⟨by simp [hresult], hdb⟩
  · exact Or.inr ⟨by simp, rfl⟩

/-- The bookkeeping only reads. -/
theorem stats_db (tier : Tier) (db : Db) : (tier.stats db).db = db := by
  unfold stats
  split
  · rcases transact_cases tier.readStats db with ⟨found, fin, hwork, -, hdb⟩ | ⟨e, -, hdb⟩
    · simp only [readStats, Work.bind_ok, Work.query_ok_iff, Work.pure_ok] at hwork
      obtain ⟨_, _, ⟨-, rfl⟩, _, _, ⟨-, rfl⟩, -, rfl⟩ := hwork
      exact hdb
    · exact hdb
  · rfl

end Tier

end BlobCache
