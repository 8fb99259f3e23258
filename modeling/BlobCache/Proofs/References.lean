import BlobCache.Proofs.Operation

/-!
# Entries and chunks refer to blobs

The tables demand that every entry and every chunk has its blob (`Db.Linked`), and
nothing else: entries may share a blob, and a blob may have no entry.  This is enough
for a put to work as it should.  A new blob has an id that no chunk refers to, so the
chunks it is given are the pieces of the payload (`Filling.copied_of_linked`), and
those of the other blobs are left alone (`Filling.chunkRowsOf_kept`).
-/

namespace BlobCache

namespace Db

variable {db db' : Db}

/-- Every entry and every chunk has its blob. -/
structure Linked (db : Db) : Prop where
  entries : ∀ e ∈ db.entryRows, e.blob ∈ db.blobIds
  chunks : ∀ c ∈ db.chunkRows, c.blob ∈ db.blobIds

/-- A blob that outlives a deletion keeps its chunks. -/
theorem chunkRowsOf_without {p : EntryRow → Bool} {blob : Int}
    (h : db.outlives p blob = true) :
    (db.without p).chunkRowsOf blob = db.chunkRowsOf blob := by
  rw [chunkRowsOf, chunkRows_without, List.filter_filter]
  apply List.filter_congr
  intro c _
  by_cases hc : c.blob = blob
  · simp [hc, h]
  · simp [hc]

theorem BlobAdded.mem_blobIds {row : BlobRow} (h : BlobAdded row db db') {blob : Int} :
    blob ∈ db'.blobIds ↔ blob = row.id ∨ blob ∈ db.blobIds := by
  simp only [Db.mem_blobIds, h.rows, Table.mem_place, or_and_right, exists_or, exists_eq_left]
  exact or_congr_left eq_comm

/-- A new blob has no chunks yet. -/
theorem Linked.chunkRowsOf_added {row : BlobRow} (h : db.Linked) (hadded : BlobAdded row db db') :
    db'.chunkRowsOf row.id = [] := by
  apply List.eq_nil_iff_forall_not_mem.mpr
  intro c hc
  obtain ⟨hc, hblob⟩ := mem_chunkRowsOf.mp hc
  exact hadded.fresh (hblob ▸ h.chunks c (hadded.chunkRows_eq ▸ hc))

namespace Linked

theorem without (h : db.Linked) (p : EntryRow → Bool) : (db.without p).Linked := by
  constructor
  · intro e he
    rw [entryRows_without] at he
    obtain ⟨he, hp⟩ := List.mem_filter.mp he
    exact mem_blobIds_without (h.entries e he) (outlives_of_kept he (by simpa using hp))
  · intro c hc
    rw [chunkRows_without] at hc
    obtain ⟨hc, hout⟩ := List.mem_filter.mp hc
    exact mem_blobIds_without (h.chunks c hc) hout

theorem blobAdded {row : BlobRow} (h : db.Linked) (hadded : BlobAdded row db db') :
    db'.Linked := by
  constructor <;> simp only [hadded.entryRows_eq, hadded.chunkRows_eq, hadded.mem_blobIds]
  · exact fun e he => Or.inr (h.entries e he)
  · exact fun c hc => Or.inr (h.chunks c hc)

theorem entryAdded {row : EntryRow} (h : db.Linked) (hadded : EntryAdded row db db') :
    db'.Linked := by
  constructor <;> simp only [hadded.blobIds_eq, hadded.chunkRows_eq]
  · exact hadded.forall_rows.mpr ⟨hadded.blob, h.entries⟩
  · exact h.chunks

theorem entryMoved {e : EntryRow} {top : Int} (h : db.Linked) (hmoved : EntryMoved e top db db') :
    db'.Linked := by
  constructor <;> simp only [hmoved.blobIds_eq, hmoved.chunkRows_eq]
  · exact hmoved.forall_rows.mpr ⟨fun x hx _ => h.entries x hx, h.entries e hmoved.mem⟩
  · exact h.chunks

theorem copied {blob : Int} {rows : List ChunkRow} (h : db.Linked) (hblob : blob ∈ db.blobIds)
    (hcopied : Copied blob rows db db') : db'.Linked := by
  constructor <;> simp only [hcopied.blobIds_eq, hcopied.entryRows_eq]
  · exact h.entries
  · intro c hc
    by_cases hown : c.blob = blob
    · exact hown ▸ hblob
    · have hmem : c ∈ db'.chunkRowsOf c.blob := mem_chunkRowsOf.mpr ⟨hc, rfl⟩
      rw [hcopied.others _ hown] at hmem
      exact h.chunks c (mem_chunkRowsOf.mp hmem).1

end Linked

end Db

theorem Evicted.linked {required : Nat} {taken rest : List EntryRow} {db db' : Db}
    (h : Evicted required taken rest db db') (hlinked : db.Linked) : db'.Linked := by
  rw [h.left]
  exact hlinked.without _

namespace Filling

variable {key : String} {file : Readable} {db db' : Db}

/-- The entry that a put makes. -/
def entry (f : Filling key file db db') : EntryRow := ⟨f.id, key, file.size, f.blob⟩

/-- The blob of a put has no chunks when the payload is copied. -/
theorem chunkRowsOf_listed (f : Filling key file db db') (h : db.Linked) :
    f.listed.chunkRowsOf f.blob = [] := by
  apply List.eq_nil_iff_forall_not_mem.mpr
  intro c hc
  obtain ⟨hc, hblob⟩ := Db.mem_chunkRowsOf.mp hc
  rw [f.entered.chunkRows_eq, Db.chunkRows_without] at hc
  have hmem : c ∈ f.stocked.chunkRowsOf f.blob :=
    Db.mem_chunkRowsOf.mpr ⟨(List.mem_filter.mp hc).1, hblob⟩
  rw [h.chunkRowsOf_added f.added] at hmem
  cases hmem

/-- The chunks of a put are the pieces of its payload. -/
theorem copied_of_linked (f : Filling key file db db') (h : db.Linked) :
    Db.Copied f.blob (pieces f.blob 0 (file.content.take file.size)) f.listed db' :=
  f.copied (f.chunkRowsOf_listed h)

theorem chunkRowsOf_entry (f : Filling key file db db') (h : db.Linked) :
    db'.chunkRowsOf f.blob = pieces f.blob 0 (file.content.take file.size) := by
  rw [(f.copied_of_linked h).own, f.chunkRowsOf_listed h, List.nil_append]

/-- Entries of other keys keep their chunks. -/
theorem chunkRowsOf_kept (f : Filling key file db db') (h : db.Linked) {e : EntryRow}
    (he : e ∈ db.entryRows) (hkey : e.key ≠ key) :
    db'.chunkRowsOf e.blob = db.chunkRowsOf e.blob := by
  have hold : e.blob ≠ f.blob := fun heq => f.added.fresh (heq ▸ h.entries e he)
  have hlisted : f.listed.chunkRowsOf e.blob =
      (f.stocked.without (·.key = key)).chunkRowsOf e.blob := by
    rw [Db.chunkRowsOf, f.entered.chunkRows_eq]
    rfl
  have hcleared : (f.stocked.without (·.key = key)).chunkRowsOf e.blob =
      f.stocked.chunkRowsOf e.blob :=
    Db.chunkRowsOf_without (Db.outlives_of_kept (f.added.entryRows_eq ▸ he) (by simpa using hkey))
  have hstocked : f.stocked.chunkRowsOf e.blob = db.chunkRowsOf e.blob := by
    rw [Db.chunkRowsOf, f.added.chunkRows_eq]
    rfl
  calc db'.chunkRowsOf e.blob = f.listed.chunkRowsOf e.blob :=
        (f.copied_of_linked h).others _ hold
    _ = (f.stocked.without (·.key = key)).chunkRowsOf e.blob := hlisted
    _ = f.stocked.chunkRowsOf e.blob := hcleared
    _ = db.chunkRowsOf e.blob := hstocked

theorem whole (f : Filling key file db db') (hw : db.Whole) (h : db.Linked) : db'.Whole :=
  (f.copied_of_linked h).whole (f.entered.whole ((f.added.whole hw).without _))

theorem linked (f : Filling key file db db') (h : db.Linked) : db'.Linked := by
  have hlisted := ((h.blobAdded f.added).without _).entryAdded f.entered
  have hblob : f.blob ∈ f.listed.blobIds := f.entered.blobIds_eq ▸ f.entered.blob
  exact hlisted.copied hblob (f.copied_of_linked h)

end Filling

namespace Writing

variable {tier : Tier} {key : String} {file : Readable} {db db' : Db}

/-- A put keeps the references. -/
theorem linked (w : Writing tier key file db db') (h : db.Linked) : db'.Linked :=
  w.filling.linked (w.evicted.linked h)

theorem whole (w : Writing tier key file db db') (hw : db.Whole) (h : db.Linked) : db'.Whole := by
  have hroomy : w.roomy.Whole := by
    rw [w.evicted.left]
    exact hw.without _
  exact w.filling.whole hroomy (w.evicted.linked h)

end Writing

end BlobCache
