import BlobCache.Proofs.Integrity

/-!
# Keys and their payloads

To its users a database is a list of keys with payloads, the least recently used
one first (`Db.contents`); the payload of an entry is found in the chunks of its
blob.  Here it is said what the operations do to this list: an eviction leaves
the end of it (`contents_without`), a put replaces the pair of its key
(`Filling.contents_perm`), and a get moves the pair of its key to the end
(`Db.EntryMoved.contents_eq`).
-/

namespace BlobCache

namespace Db

variable {db db' : Db} {p : EntryRow → Bool}

/-- The payload of an entry: the chunks of its blob, put together. -/
def payload (db : Db) (e : EntryRow) : Bytes := (db.chunksOf e.blob).flatten

/-- The key of an entry and its payload. -/
def binding (db : Db) (e : EntryRow) : String × Bytes := (e.key, db.payload e)

/-- All keys and payloads, least recently used first. -/
def contents (db : Db) : List (String × Bytes) := db.entryRows.map db.binding

theorem payload_congr {e : EntryRow} (h : db'.chunkRowsOf e.blob = db.chunkRowsOf e.blob) :
    db'.payload e = db.payload e := by
  unfold payload
  rw [chunksOf_eq, chunksOf_eq, h]

/-- The payload of an entry is as long as the entry says. -/
theorem Intact.length_payload {e : EntryRow} (h : db.Intact none) (he : e ∈ db.entryRows) :
    ((db.payload e).length : Int) = e.size := by
  have hlaid := h.laid _ (h.stock e he) (by simp)
  rw [payload, List.length_flatten, chunksOf_eq, List.map_map]
  exact hlaid.filled

/-- Entries that stay keep their payloads. -/
theorem payload_without {e : EntryRow} (he : e ∈ db.entryRows) (hp : p e = false) :
    (db.without p).payload e = db.payload e :=
  payload_congr (chunkRowsOf_without (outlives_of_kept he hp))

theorem contents_without :
    (db.without p).contents = (db.entryRows.filter fun e => !p e).map db.binding := by
  rw [contents, entryRows_without]
  apply List.map_congr_left
  intro e he
  obtain ⟨he, hp⟩ := List.mem_filter.mp he
  rw [binding, payload_without he (by simpa using hp)]
  rfl

/-- Keys occur once, so the entry of a key is left out together with its pair. -/
theorem map_binding_filter (rows : List EntryRow) (key : String) :
    (rows.filter fun e => !decide (e.key = key)).map db.binding =
      (rows.map db.binding).filter (·.1 ≠ key) := by
  rw [List.filter_map]
  congr 1
  apply List.filter_congr
  intro e _
  by_cases h : e.key = key <;> simp [binding, h]

/-- A promotion leaves the payloads alone. -/
theorem EntryMoved.payload_eq {e : EntryRow} {top : Int} (h : EntryMoved e top db db')
    (x : EntryRow) : db'.payload x = db.payload x := by
  rw [payload, h.frame]
  rfl

/-- A promotion moves the pair of its key to the end. -/
theorem EntryMoved.contents_eq {e : EntryRow} {top : Int} (h : EntryMoved e top db db') :
    db'.contents = db.contents.filter (·.1 ≠ e.key) ++ [db.binding e] := by
  have hbinding : ∀ x, db'.binding x = db.binding x := by
    intro x
    rw [binding, h.payload_eq]
    rfl
  have hkey : ∀ x ∈ db.entryRows, decide (x ≠ e) = !decide (x.key = e.key) := by
    intro x hx
    have : x = e ↔ x.key = e.key :=
      ⟨fun heq => heq ▸ rfl, entry_eq_of_key hx h.mem⟩
    simp [this]
  rw [contents, h.rows, List.filter_congr hkey, List.map_append, List.map_singleton,
    funext hbinding, map_binding_filter]
  rfl

end Db

theorem Evicted.contents_eq {required : Nat} {taken rest : List EntryRow} {db db' : Db}
    (h : Evicted required taken rest db db') : db'.contents = rest.map db.binding := by
  have hrows := h.rows_left
  rw [h.left, Db.entryRows_without] at hrows
  rw [h.left, Db.contents_without, hrows]

namespace Filling

variable {key : String} {file : Readable} {db db' : Db}

/-- Entries of other keys keep their payloads. -/
theorem payload_kept (f : Filling key file db db') (h : db.Linked) {e : EntryRow}
    (he : e ∈ db.entryRows) (hkey : e.key ≠ key) : db'.payload e = db.payload e :=
  Db.payload_congr (f.chunkRowsOf_kept h he hkey)

/-- The new entry has the payload that was put. -/
theorem payload_entry (f : Filling key file db db') (h : db.Linked) :
    db'.payload f.entry = file.content.take file.size := by
  rw [Db.payload, Db.chunksOf_eq]
  simp only [entry, f.chunkRowsOf_entry h]
  exact flatten_pieces _ _ _

theorem binding_kept (f : Filling key file db db') (h : db.Linked) {e : EntryRow}
    (he : e ∈ db.entryRows) (hkey : e.key ≠ key) : db'.binding e = db.binding e := by
  rw [Db.binding, Db.binding, f.payload_kept h he hkey]

theorem binding_entry (f : Filling key file db db') (h : db.Linked) :
    db'.binding f.entry = (key, file.content.take file.size) := by
  rw [Db.binding, f.payload_entry h]
  rfl

/-- The pairs of other keys, as they are in the database in the end. -/
theorem map_binding_kept (f : Filling key file db db') (h : db.Linked) :
    (db.entryRows.filter fun e => !decide (e.key = key)).map db'.binding =
      db.contents.filter (·.1 ≠ key) := by
  rw [Db.contents, ← Db.map_binding_filter]
  apply List.map_congr_left
  intro e he
  obtain ⟨he, hkey⟩ := List.mem_filter.mp he
  exact f.binding_kept h he (by simpa using hkey)

/-- **A put replaces the pair of its key**, wherever the new one goes. -/
theorem contents_perm (f : Filling key file db db') (h : db.Intact none) :
    db'.contents.Perm ((key, file.content.take file.size) :: db.contents.filter (·.1 ≠ key)) := by
  rw [Db.contents, f.entryRows_eq, ← f.binding_entry h.linked, ← f.map_binding_kept h.linked]
  exact (Table.perm_place _ _).map db'.binding

/-- If its id comes after all others, the new pair goes to the end. -/
theorem contents_eq (f : Filling key file db db') (h : db.Intact none)
    (hlast : ∀ e ∈ db.entryRows, e.key ≠ key → e.id < f.id) :
    db'.contents = db.contents.filter (·.1 ≠ key) ++ [(key, file.content.take file.size)] := by
  rw [Db.contents, f.entryRows_eq, Table.place_last, List.map_append,
    f.map_binding_kept h.linked, ← f.binding_entry h.linked]
  · rfl
  · intro e he
    obtain ⟨he, hkey⟩ := List.mem_filter.mp he
    exact hlast e he (by simpa using hkey)

end Filling

/-- What a put that caches leaves in a database is the new pair, or was there
before under another key. -/
theorem Writing.mem_contents {tier : Tier} {key : String} {file : Readable} {db db' : Db}
    (w : Writing tier key file db db') (h : db.Intact none) {pair : String × Bytes}
    (hpair : pair ∈ db'.contents) :
    pair = (key, file.content.take file.size) ∨ pair ∈ db.contents ∧ pair.1 ≠ key := by
  have hperm := w.filling.contents_perm (w.evicted.intact h)
  rcases List.mem_cons.mp (hperm.subset hpair) with hnew | hold
  · exact Or.inl hnew
  · obtain ⟨hmem, hkey⟩ := List.mem_filter.mp hold
    refine Or.inr ⟨?_, by simpa using hkey⟩
    rw [w.evicted.contents_eq] at hmem
    rw [Db.contents, w.evicted.rows, List.map_append]
    exact List.mem_append_right _ hmem

end BlobCache
