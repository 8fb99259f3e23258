import BlobCache.Proofs.Table
import BlobCache.Store.Records

/-!
# What a statement leaves behind

For each statement that adds or moves a row there is one relation that says all
it does: which row comes where, what becomes of the recorded totals, and that
nothing else changes (`BlobAdded`, `EntryAdded`, `EntryMoved`, `ChunkAdded`).  A
statement that goes through is in its relation (`insertBlob_added` and so on),
and in a database that has its tables and refuses nothing it does go through
(`exists_insertBlob` and so on).
-/

namespace BlobCache

/-! ## Ids -/

/-- The last of ascending ids is the largest. -/
theorem le_of_getLast? {ids : List Int} {last : Int} (hasc : ids.Pairwise (· < ·))
    (hlast : ids.getLast? = some last) : ∀ i ∈ ids, i ≤ last := by
  obtain ⟨front, rfl⟩ := List.getLast?_eq_some_iff.mp hlast
  intro i hi
  rcases List.mem_append.mp hi with hi | hi
  · exact Int.le_of_lt ((List.pairwise_append.mp hasc).2.2 i hi last (by simp))
  · exact Int.le_of_eq (List.mem_singleton.mp hi)

/-- Where all ids are small, a new one comes after them and is hardly larger. -/
theorem exists_freshId? {ids : List Int} {n : Int} (hasc : ids.Pairwise (· < ·))
    (hle : ∀ i ∈ ids, i ≤ n) (hn : 0 ≤ n) (hlt : n < largest) :
    ∃ id, freshId? ids = some id ∧ (∀ i ∈ ids, i < id) ∧ id ≤ n + 1 := by
  unfold freshId?
  cases hlast : ids.getLast? with
  | none =>
      obtain rfl : ids = [] := List.getLast?_eq_none_iff.mp hlast
      exact ⟨1, rfl, by simp, by omega⟩
  | some last =>
      have hbelow := hle last (List.mem_of_getLast? hlast)
      refine ⟨last + 1, ?_, ?_, by omega⟩
      · simp only [following?, if_pos (Int.lt_of_le_of_lt hbelow hlt), Option.some_or]
      · intro i hi
        exact Int.lt_add_one_of_le (le_of_getLast? hasc hlast i hi)

/-- Of more candidates than there are ids, one is not in use. -/
theorem exists_unusedId? (ids : List Int) : ∃ id, unusedId? ids = some id ∧ id ∉ ids := by
  unfold unusedId?
  generalize hcandidates : (List.range (ids.length + 1)).map
    (fun n : Nat => Int.ofNat (1 <<< 62) - n) = candidates
  have hlength : candidates.length = ids.length + 1 := by simp [← hcandidates]
  have hnodup : candidates.Nodup := by
    rw [← hcandidates]
    refine List.Nodup.map ?_ List.nodup_range
    intro a b hab
    simp only at hab
    omega
  cases hfound : candidates.find? fun id => !ids.contains id with
  | some id => exact ⟨id, rfl, by simpa using List.find?_some hfound⟩
  | none =>
      have hused : candidates ⊆ ids := by
        intro id hid
        simpa using List.find?_eq_none.mp hfound id hid
      have := (List.subperm_of_subset hnodup hused).length_le
      omega

/-- There is always an id for a new row. -/
theorem exists_unused_freshId? {ids : List Int} (hasc : ids.Pairwise (· < ·)) :
    ∃ id, freshId? ids = some id ∧ id ∉ ids := by
  unfold freshId?
  cases hlast : ids.getLast? with
  | none =>
      obtain rfl : ids = [] := List.getLast?_eq_none_iff.mp hlast
      exact ⟨1, rfl, List.not_mem_nil⟩
  | some last =>
      by_cases hlt : last < largest
      · refine ⟨last + 1, by simp only [following?, if_pos hlt, Option.some_or], ?_⟩
        intro hmem
        have := le_of_getLast? hasc hlast _ hmem
        omega
      · simp only [following?, if_neg hlt, Option.none_or]
        exact exists_unusedId? ids

namespace Db

variable {db db' : Db}

/-- The tables of a cache are there, and no row change is refused. -/
structure Whole (db : Db) : Prop where
  globals : db.globals.isSome
  blobs : db.blobs.isSome
  chunks : db.chunks.isSome
  entries : db.entries.isSome
  refused : db.refused = []

theorem Whole.admits (h : db.Whole) (change : RowChange) : db.admits change = true := by
  simp [Db.admits, h.refused]

theorem entryIds_ascending (db : Db) : db.entryIds.Pairwise (· < ·) :=
  List.pairwise_map.mpr db.entryRows_ascending

theorem blobIds_ascending (db : Db) : db.blobIds.Pairwise (· < ·) := by
  unfold blobIds blobRows
  cases db.blobs with
  | none => exact .nil
  | some t => exact List.pairwise_map.mpr t.ascending

theorem mem_entryIds {id : Int} : id ∈ db.entryIds ↔ ∃ e ∈ db.entryRows, e.id = id :=
  List.mem_map

theorem mem_blobIds {id : Int} : id ∈ db.blobIds ↔ ∃ b ∈ db.blobRows, b.id = id :=
  List.mem_map

theorem id_le_of_getLast? {last : Int} (hlast : db.entryIds.getLast? = some last) {e : EntryRow}
    (he : e ∈ db.entryRows) : e.id ≤ last :=
  le_of_getLast? db.entryIds_ascending hlast _ (mem_entryIds.mpr ⟨e, he, rfl⟩)

/-- Where there are entries, one of them is last. -/
theorem exists_getLast?_of_mem {e : EntryRow} (he : e ∈ db.entryRows) :
    ∃ last, db.entryIds.getLast? = some last := by
  cases hlast : db.entryIds.getLast? with
  | some last => exact ⟨last, rfl⟩
  | none =>
      have hmem : e.id ∈ db.entryIds := mem_entryIds.mpr ⟨e, he, rfl⟩
      rw [List.getLast?_eq_none_iff.mp hlast] at hmem
      cases hmem

/-- There is an id after the largest one. -/
def HasNextId (db : Db) : Prop := ∀ id ∈ db.entryIds, id < largest

instance : DecidablePred HasNextId := fun db =>
  inferInstanceAs (Decidable (∀ id ∈ db.entryIds, id < largest))

/-- A new row gets an id after all others then. -/
theorem HasNextId.lt_of_freshId? {id : Int} (h : db.HasNextId)
    (hid : freshId? db.entryIds = some id) : ∀ i ∈ db.entryIds, i < id := by
  have hle : ∀ i ∈ db.entryIds, i ≤ largest - 1 := fun i hi => Int.le_sub_one_of_lt (h i hi)
  obtain ⟨next, hnext, habove, -⟩ :=
    exists_freshId? db.entryIds_ascending hle (by decide) (by decide)
  obtain rfl : next = id := Option.some.inj (hnext.symm.trans hid)
  exact habove

/-! ## Recorded totals -/

theorem mapTotals_eq_some {f : Amount → Amount} :
    db.mapTotals f = some db' ↔ ∃ totals, db.globals = some totals ∧
      (totals = [] ∨ db.admits .updateTotal = true) ∧
      db' = { db with globals := some (totals.map f) } := by
  simp only [mapTotals, Option.bind_eq_bind, Option.bind_eq_some_iff,
    Option.ite_none_right_eq_some, Bool.or_eq_true, List.isEmpty_iff, Option.some.injEq,
    eq_comm (a := db')]

/-! ## Blobs -/

/-- `db'` is `db` with one more blob. -/
structure BlobAdded (row : BlobRow) (db db' : Db) : Prop where
  rows : db'.blobRows = Table.place row db.blobRows
  fresh : row.id ∉ db.blobIds
  there : db'.blobs.isSome
  frame : db' = { db with blobs := db'.blobs }

theorem insertBlob_added {size id : Int} (h : db.insertBlob size = some (id, db')) :
    BlobAdded ⟨id, size⟩ db db' ∧ freshId? db.blobIds = some id := by
  simp only [insertBlob, Option.bind_eq_bind, Option.bind_none, Option.bind_eq_some_iff,
    Option.ite_none_left_eq_some] at h
  obtain ⟨blobs, hblobs, -, _, hid, longer, hlonger, ⟨⟩⟩ := h
  refine ⟨⟨?_, ?_, rfl, rfl⟩, hid⟩
  · simp [blobRows, hblobs, Table.rows_insert? hlonger]
  · intro hmem
    obtain ⟨b, hb, heq⟩ := mem_blobIds.mp hmem
    simp only [blobRows, hblobs, Option.map_some, Option.getD_some] at hb
    exact Table.no_clash_of_insert? hlonger b hb heq

theorem BlobAdded.entryRows_eq {row : BlobRow} (h : BlobAdded row db db') :
    db'.entryRows = db.entryRows := by
  rw [h.frame]
  rfl

theorem BlobAdded.chunkRows_eq {row : BlobRow} (h : BlobAdded row db db') :
    db'.chunkRows = db.chunkRows := by
  rw [h.frame]
  rfl

theorem BlobAdded.whole {row : BlobRow} (h : BlobAdded row db db') (hw : db.Whole) :
    db'.Whole := by
  have hthere := h.there
  rw [h.frame]
  exact ⟨hw.globals, hthere, hw.chunks, hw.entries, hw.refused⟩

theorem exists_insertBlob {id : Int} (size : Int) (hw : db.Whole)
    (hid : freshId? db.blobIds = some id) (hfresh : id ∉ db.blobIds) :
    ∃ db', db.insertBlob size = some (id, db') := by
  obtain ⟨blobs, hblobs⟩ := Option.isSome_iff_exists.mp hw.blobs
  have hclash : ∀ b ∈ blobs.rows, ¬ Row.clash b (⟨id, size⟩ : BlobRow) := by
    intro b hb heq
    exact hfresh (mem_blobIds.mpr ⟨b, by simpa [blobRows, hblobs] using hb, heq⟩)
  obtain ⟨longer, hlonger⟩ := Table.exists_insert? hclash
  refine ⟨{ db with blobs := some longer }, ?_⟩
  simp [insertBlob, hblobs, hw.admits, hid, hlonger]

/-! ## Entries -/

/-- `db'` is `db` with one more entry, whose size is added to the totals. -/
structure EntryAdded (row : EntryRow) (db db' : Db) : Prop where
  rows : db'.entryRows = Table.place row db.entryRows
  fresh : ∀ e ∈ db.entryRows, e.id ≠ row.id ∧ e.key ≠ row.key
  blob : row.blob ∈ db.blobIds
  totals : db'.globals = db.globals.map (List.map fun t => (t.add row.size).stored)
  there : db'.entries.isSome
  frame : db' = { db with entries := db'.entries, globals := db'.globals }

theorem insertEntry_added {key : String} {size blob id : Int}
    (h : db.insertEntry key size blob = some (id, db')) :
    EntryAdded ⟨id, key, size, blob⟩ db db' ∧ freshId? db.entryIds = some id := by
  simp only [insertEntry, Option.bind_eq_bind, Option.bind_none, Option.bind_eq_some_iff,
    Option.ite_none_left_eq_some] at h
  obtain ⟨entries, hentries, blobs, hblobs, totals, htotals, -, hblob, _, hid, longer,
    hlonger, _, hcounted, ⟨⟩⟩ := h
  obtain ⟨totals', htotals', -, rfl⟩ := mapTotals_eq_some.mp hcounted
  cases htotals.symm.trans htotals'
  refine ⟨⟨?_, ?_, ?_, ?_, rfl, rfl⟩, hid⟩
  · simp [entryRows, hentries, Table.rows_insert? hlonger]
  · intro e he
    simp only [entryRows, hentries, Option.map_some, Option.getD_some] at he
    exact not_or.mp (Table.no_clash_of_insert? hlonger e he)
  · simpa [mem_blobIds, blobRows, hblobs] using hblob
  · simp [htotals]

theorem EntryAdded.blobRows_eq {row : EntryRow} (h : EntryAdded row db db') :
    db'.blobRows = db.blobRows := by
  rw [h.frame]
  rfl

theorem EntryAdded.blobIds_eq {row : EntryRow} (h : EntryAdded row db db') :
    db'.blobIds = db.blobIds :=
  congrArg (List.map BlobRow.id) h.blobRows_eq

theorem EntryAdded.chunkRows_eq {row : EntryRow} (h : EntryAdded row db db') :
    db'.chunkRows = db.chunkRows := by
  rw [h.frame]
  rfl

/-- What holds of all entries now is what holds of the new one and of those before. -/
theorem EntryAdded.forall_rows {row : EntryRow} {P : EntryRow → Prop} (h : EntryAdded row db db') :
    (∀ x ∈ db'.entryRows, P x) ↔ P row ∧ ∀ x ∈ db.entryRows, P x := by
  simp only [h.rows, Table.mem_place, forall_eq_or_imp]

theorem EntryAdded.whole {row : EntryRow} (h : EntryAdded row db db') (hw : db.Whole) :
    db'.Whole := by
  have hthere := h.there
  have htotals : db'.globals.isSome := by
    rw [h.totals, Option.isSome_map]
    exact hw.globals
  rw [h.frame]
  exact ⟨htotals, hw.blobs, hw.chunks, hthere, hw.refused⟩

theorem exists_insertEntry {key : String} {blob id : Int} (size : Int) (hw : db.Whole)
    (hblob : blob ∈ db.blobIds) (hid : freshId? db.entryIds = some id)
    (hfresh : ∀ e ∈ db.entryRows, e.id ≠ id ∧ e.key ≠ key) :
    ∃ db', db.insertEntry key size blob = some (id, db') := by
  obtain ⟨entries, hentries⟩ := Option.isSome_iff_exists.mp hw.entries
  obtain ⟨blobs, hblobs⟩ := Option.isSome_iff_exists.mp hw.blobs
  obtain ⟨totals, htotals⟩ := Option.isSome_iff_exists.mp hw.globals
  have hclash : ∀ e ∈ entries.rows, ¬ Row.clash e (⟨id, key, size, blob⟩ : EntryRow) := by
    intro e he
    exact not_or.mpr (hfresh e (by simpa [entryRows, hentries] using he))
  obtain ⟨longer, hlonger⟩ := Table.exists_insert? hclash
  have hfound : blobs.rows.any (·.id = blob) = true := by
    simpa [mem_blobIds, blobRows, hblobs] using hblob
  obtain ⟨counted, hcounted⟩ : ∃ counted, ({ db with entries := some longer } : Db).mapTotals
      (fun t => (t.add size).stored) = some counted :=
    ⟨_, mapTotals_eq_some.mpr ⟨totals, htotals, Or.inr (hw.admits .updateTotal), rfl⟩⟩
  refine ⟨counted, ?_⟩
  simp only [insertEntry, Option.bind_eq_bind, Option.bind_none, Option.bind_eq_some_iff,
    Option.ite_none_left_eq_some]
  exact ⟨entries, hentries, blobs, hblobs, totals, htotals, by simp [hw.admits], by simp [hfound],
    id, hid, longer, hlonger, counted, hcounted, rfl⟩

/-- `db'` is `db` with the entry `e` moved to the end of the order of use. -/
structure EntryMoved (e : EntryRow) (top : Int) (db db' : Db) : Prop where
  mem : e ∈ db.entryRows
  above : ∀ x ∈ db.entryRows, x.id < top
  next : ∃ last ∈ db.entryIds, top = last + 1
  rows : db'.entryRows = db.entryRows.filter (· ≠ e) ++ [{ e with id := top }]
  there : db'.entries.isSome
  frame : db' = { db with entries := db'.entries }

theorem promoteEntry_moved {id top : Int} (h : db.promoteEntry id = some (some top, db')) :
    ∃ e, e.id = id ∧ EntryMoved e top db db' := by
  simp only [promoteEntry, Option.bind_eq_bind, Option.bind_none, Option.bind_eq_some_iff] at h
  obtain ⟨entries, hentries, h⟩ := h
  have hrows := entryRows_of_some hentries
  cases hfind : entries.rows.find? (·.id = id) with
  | none => simp [hfind] at h
  | some e =>
      simp only [hfind, Option.bind_eq_some_iff, Option.ite_none_left_eq_some] at h
      obtain ⟨-, last, hlast, _, htop, moved, hmoved, ⟨⟩⟩ := h
      obtain ⟨-, rfl⟩ := following?_eq_some.mp htop
      have hmem : e ∈ entries.rows := List.mem_of_find?_eq_some hfind
      have hid : e.id = id := by simpa using List.find?_some hfind
      have habove : ∀ x ∈ entries.rows, x.id < last + 1 := by
        intro x hx
        exact Int.lt_add_one_of_le (id_le_of_getLast? hlast (hrows ▸ hx))
      refine ⟨e, hid, ⟨hrows ▸ hmem, hrows ▸ habove, ?_, ?_, rfl, rfl⟩⟩
      · exact ⟨last, List.mem_of_getLast? hlast, rfl⟩
      · have hlastRow := Table.rows_insert?_last hmoved (by
          intro x hx
          exact habove x (List.mem_filter.mp hx).1)
        simp only [hrows]
        simpa [entryRows] using hlastRow

theorem EntryMoved.blobRows_eq {e : EntryRow} {top : Int} (h : EntryMoved e top db db') :
    db'.blobRows = db.blobRows := by
  rw [h.frame]
  rfl

theorem EntryMoved.blobIds_eq {e : EntryRow} {top : Int} (h : EntryMoved e top db db') :
    db'.blobIds = db.blobIds :=
  congrArg (List.map BlobRow.id) h.blobRows_eq

theorem EntryMoved.chunkRows_eq {e : EntryRow} {top : Int} (h : EntryMoved e top db db') :
    db'.chunkRows = db.chunkRows := by
  rw [h.frame]
  rfl

theorem EntryMoved.globals_eq {e : EntryRow} {top : Int} (h : EntryMoved e top db db') :
    db'.globals = db.globals := by
  rw [h.frame]

/-- What holds of all entries now is what holds of the others and of the one that moved. -/
theorem EntryMoved.forall_rows {e : EntryRow} {top : Int} {P : EntryRow → Prop}
    (h : EntryMoved e top db db') :
    (∀ x ∈ db'.entryRows, P x) ↔ (∀ x ∈ db.entryRows, x ≠ e → P x) ∧ P { e with id := top } := by
  simp only [h.rows, List.forall_mem_append, List.forall_mem_singleton, List.mem_filter,
    decide_eq_true_iff, and_imp]

theorem EntryMoved.whole {e : EntryRow} {top : Int} (h : EntryMoved e top db db')
    (hw : db.Whole) : db'.Whole := by
  have hthere := h.there
  rw [h.frame]
  exact ⟨hw.globals, hw.blobs, hw.chunks, hthere, hw.refused⟩

theorem exists_promoteEntry {e : EntryRow} (hw : db.Whole) (he : e ∈ db.entryRows)
    (hlt : ∀ x ∈ db.entryRows, x.id < largest) :
    ∃ top db', db.promoteEntry e.id = some (some top, db') := by
  obtain ⟨entries, hentries⟩ := Option.isSome_iff_exists.mp hw.entries
  have hrows := entryRows_of_some hentries
  have hfind : entries.rows.find? (·.id = e.id) = some e := hrows ▸ find?_id_of_mem he
  obtain ⟨last, hlast⟩ := exists_getLast?_of_mem he
  obtain ⟨x, hx, hxid⟩ := mem_entryIds.mp (List.mem_of_getLast? hlast)
  have htop : following? last = some (last + 1) :=
    following?_eq_some.mpr ⟨hxid ▸ hlt x hx, rfl⟩
  have hclash : ∀ y ∈ (entries.filter fun r => r ≠ e).rows,
      ¬ Row.clash y ({ e with id := last + 1 } : EntryRow) := by
    intro y hy hclash
    obtain ⟨hy, hne⟩ := List.mem_filter.mp hy
    rcases hclash with hid | hkey
    · have hbelow : y.id ≤ last := id_le_of_getLast? hlast (hrows ▸ hy)
      simp only at hid
      omega
    · exact (of_decide_eq_true hne) (entry_eq_of_key (hrows ▸ hy) he hkey)
  obtain ⟨moved, hmoved⟩ := Table.exists_insert? hclash
  refine ⟨last + 1, { db with entries := some moved }, ?_⟩
  simp only [promoteEntry, Option.bind_eq_bind, Option.bind_none, Option.bind_eq_some_iff]
  refine ⟨entries, hentries, ?_⟩
  simp only [hfind, Option.bind_eq_some_iff, Option.ite_none_left_eq_some]
  exact ⟨by simp [hw.admits], last, hlast, last + 1, htop, moved, hmoved, rfl⟩

/-- No entry moves when the largest id is in use. -/
theorem promoteEntry_eq_none {e : EntryRow} (he : e ∈ db.entryRows)
    (hlargest : largest ∈ db.entryIds) : db.promoteEntry e.id = none := by
  obtain ⟨x, hx, hxid⟩ := mem_entryIds.mp hlargest
  obtain ⟨last, hlast⟩ := exists_getLast?_of_mem he
  have htop : following? last = none := by
    have := id_le_of_getLast? hlast hx
    rw [following?, if_neg (by omega)]
  cases hentries : db.entries with
  | none => simp [promoteEntry, hentries]
  | some entries =>
      have hfind := find?_id_of_mem he
      rw [entryRows_of_some hentries] at hfind
      simp [promoteEntry, hentries, hfind, hlast, htop]

/-! ## Chunks -/

/-- `db'` is `db` with one more chunk. -/
structure ChunkAdded (row : ChunkRow) (db db' : Db) : Prop where
  rows : db'.chunkRows = Table.place row db.chunkRows
  blob : row.blob ∈ db.blobIds
  there : db'.chunks.isSome
  frame : db' = { db with chunks := db'.chunks }

theorem insertChunk_added {blob seq : Int} {data : Bytes}
    (h : db.insertChunk blob seq data = some db') : ChunkAdded ⟨blob, seq, data⟩ db db' := by
  simp only [insertChunk, Option.bind_eq_bind, Option.bind_none, Option.bind_eq_some_iff,
    Option.ite_none_left_eq_some] at h
  obtain ⟨chunks, hchunks, blobs, hblobs, -, hblob, longer, hlonger, ⟨⟩⟩ := h
  refine ⟨?_, ?_, rfl, rfl⟩
  · simp [chunkRows, hchunks, Table.rows_insert? hlonger]
  · simpa [mem_blobIds, blobRows, hblobs] using hblob

theorem exists_insertChunk {blob seq : Int} (data : Bytes) (hw : db.Whole)
    (hblob : blob ∈ db.blobIds)
    (hfresh : ∀ c ∈ db.chunkRows, c.blob = blob → c.seq ≠ seq) :
    ∃ db', db.insertChunk blob seq data = some db' := by
  obtain ⟨chunks, hchunks⟩ := Option.isSome_iff_exists.mp hw.chunks
  obtain ⟨blobs, hblobs⟩ := Option.isSome_iff_exists.mp hw.blobs
  have hclash : ∀ c ∈ chunks.rows, ¬ Row.clash c (⟨blob, seq, data⟩ : ChunkRow) := by
    intro c hc hclash
    exact hfresh c (by simpa [chunkRows, hchunks] using hc) hclash.1 hclash.2
  obtain ⟨longer, hlonger⟩ := Table.exists_insert? hclash
  have hfound : blobs.rows.any (·.id = blob) = true := by
    simpa [mem_blobIds, blobRows, hblobs] using hblob
  refine ⟨{ db with chunks := some longer }, ?_⟩
  simp only [insertChunk, Option.bind_eq_bind, Option.bind_none, Option.bind_eq_some_iff,
    Option.ite_none_left_eq_some]
  exact ⟨chunks, hchunks, blobs, hblobs, by simp [hw.admits], by simp [hfound], longer,
    hlonger, rfl⟩

end Db

end BlobCache
