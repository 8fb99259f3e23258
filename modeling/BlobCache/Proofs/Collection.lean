import BlobCache.Proofs.References

/-!
# Which blobs go with their entries

An entry that is deleted takes its blob along if no entry refers to the blob any longer,
and a blob goes with its chunks.  Entries may share a blob, so which of several deleted
entries takes it depends on the order in which they are deleted.  What is gone at the end
does not: a deletion leaves out the entries it is to delete, the blobs that these
referred to and no other entry does, and the chunks of these blobs (`Db.Collected`).  A
blob that no entry ever referred to is none of them.

This is so for each entry, and for one entry after the other in any order
(`Db.collected_in_any_order`), hence for the two deletions of a store
(`Db.collected_of_deletion`).
-/

namespace BlobCache

namespace Db

variable {db mid after : Db} {p q : EntryRow → Bool}

/-- Whether a blob is left without an entry when the entries that satisfy `p` are
deleted: one of these refers to it, and none of the others does. -/
def orphaned (p : EntryRow → Bool) (db : Db) (blob : Int) : Bool :=
  decide ((∃ e ∈ db.entryRows, p e = true ∧ e.blob = blob) ∧
    ∀ e ∈ db.entryRows, p e = false → e.blob ≠ blob)

/-- `after` is `db` without the entries that satisfy `p`, the blobs that are left
without an entry, and the chunks of these; and every reference is kept. -/
structure Collected (p : EntryRow → Bool) (db after : Db) : Prop where
  entries : after.entryRows = db.entryRows.filter fun e => !p e
  blobs : after.blobRows = db.blobRows.filter fun b => !db.orphaned p b.id
  chunks : after.chunkRows = db.chunkRows.filter fun c => !db.orphaned p c.blob
  linked : after.Linked
  frame : after = { db with
    entries := after.entries, blobs := after.blobs, chunks := after.chunks,
    globals := after.globals }

/-- A blob that is not there is no entry's. -/
theorem Linked.orphaned_of_not_mem (h : db.Linked) (p : EntryRow → Bool) {blob : Int}
    (hblob : blob ∉ db.blobIds) : db.orphaned p blob = false := by
  rw [orphaned, decide_eq_false_iff_not]
  rintro ⟨⟨e, he, -, rfl⟩, -⟩
  exact hblob (h.entries e he)

/-- The blobs that are not left without an entry are those that outlive the deletion. -/
theorem Linked.orphaned_eq (h : db.Linked) (p : EntryRow → Bool) (blob : Int) :
    (!db.orphaned p blob) = db.outlives p blob := by
  by_cases hblob : blob ∈ db.blobIds
  · rw [Bool.eq_iff_iff, outlives_iff_of_mem hblob, Bool.not_eq_true', orphaned,
      decide_eq_false_iff_not, not_and_or]
    simp only [not_exists, not_and, not_forall, not_not, exists_prop]
  · rw [h.orphaned_of_not_mem p hblob, outlives_of_not_mem hblob, Bool.not_false]

theorem collected_without (h : db.Linked) (p : EntryRow → Bool) :
    Collected p db (db.without p) where
  entries := entryRows_without
  blobs := by simp only [blobRows_without, h.orphaned_eq]
  chunks := by simp only [chunkRows_without, h.orphaned_eq]
  linked := h.without p
  frame := rfl

/-- Blobs that are left without an entry by one of two deletions are so by both at
once. -/
theorem Collected.orphaned_eq (hl : db.Linked) (h : Collected p db mid) (blob : Int) :
    (!db.orphaned p blob && !mid.orphaned q blob) =
      !db.orphaned (fun e => p e || q e) blob := by
  have hids : mid.blobIds = (db.without p).blobIds := by
    rw [blobIds, blobIds, h.blobs, (collected_without hl p).blobs]
  have hmid : mid.outlives q blob = (db.without p).outlives q blob := by
    unfold outlives
    rw [h.entries, entryRows_without, hids]
  rw [hl.orphaned_eq, h.linked.orphaned_eq, hl.orphaned_eq, hmid, outlives_without]

/-- Two deletions, one after the other, are one. -/
theorem Collected.trans (hl : db.Linked) (h₁ : Collected p db mid) (h₂ : Collected q mid after) :
    Collected (fun e => p e || q e) db after where
  entries := by
    rw [h₂.entries, h₁.entries, List.filter_filter]
    apply List.filter_congr
    intro e _
    rw [Bool.not_or, Bool.and_comm]
  blobs := by
    rw [h₂.blobs, h₁.blobs, List.filter_filter]
    apply List.filter_congr
    intro b _
    rw [Bool.and_comm, h₁.orphaned_eq hl]
  chunks := by
    rw [h₂.chunks, h₁.chunks, List.filter_filter]
    apply List.filter_congr
    intro c _
    rw [Bool.and_comm, h₁.orphaned_eq hl]
  linked := h₂.linked
  frame := by rw [h₂.frame, h₁.frame]

/-- **Entries may be deleted in any order.**  One after the other they leave what their
deletion at once leaves, but for the recorded totals, which may be rounded. -/
theorem collected_in_any_order {order : List EntryRow} (hw : db.Whole) (hl : db.Linked)
    (hnodup : order.Nodup) (hmem : ∀ e ∈ order, e ∈ db.entryRows) :
    ∃ after, order.foldlM deleteEntry db = some after ∧ Collected (· ∈ order) db after := by
  induction order generalizing db with
  | nil =>
      have hnothing := collected_without hl (· ∈ [])
      rw [without_eq_self fun e _ => by simp] at hnothing
      exact ⟨db, rfl, hnothing⟩
  | cons e rest ih =>
      obtain ⟨hnotin, hrest⟩ := List.nodup_cons.mp hnodup
      obtain ⟨he, hothers⟩ := List.forall_mem_cons.mp hmem
      obtain ⟨mid, hmid⟩ := exists_deleteEntry (e := e) hw
      obtain rfl := deleteEntry_eq he hmid
      have hfirst := collected_without hl (· = e)
      obtain ⟨after, hafter, hlater⟩ := ih (hw.without _) hfirst.linked hrest (by
        intro x hx
        rw [hfirst.entries, List.mem_filter]
        refine ⟨hothers x hx, ?_⟩
        have : x ≠ e := by
          rintro rfl
          exact hnotin hx
        simpa using this)
      have hboth : (fun x => decide (x = e) || decide (x ∈ rest)) =
          fun x => decide (x ∈ e :: rest) := by
        funext x
        simp
      exact ⟨after, by simp [List.foldlM_cons, hmid, hafter], hboth ▸ hfirst.trans hl hlater⟩

/-- **A deletion collects the blobs that it leaves without an entry.**  In a database
that has its tables, refuses nothing and keeps its references, both deletions go through
whatever their argument.  They say how many entries they have deleted, and whether there
was one; and what they leave is the database without these entries, the blobs that only
these referred to, and the chunks of these blobs. -/
theorem collected_of_deletion (hw : db.Whole) (hl : db.Linked) :
    (∀ id, ∃ after,
      db.deleteEntriesThrough id = .ok ((db.entryRows.filter (·.id ≤ id)).length, after) ∧
        Collected (·.id ≤ id) db after) ∧
    ∀ key, ∃ after,
      db.deleteEntryByKey key = .ok (db.entryRows.any (·.key = key), after) ∧
        Collected (·.key = key) db after := by
  constructor
  · intro id
    exact ⟨_, answered_eq_ok.mpr (deleteEntries_of_whole hw _), collected_without hl _⟩
  · intro key
    refine ⟨_, ?_, collected_without hl _⟩
    have hone : decide (0 < (db.entryRows.filter (·.key = key)).length) =
        db.entryRows.any (·.key = key) := by
      rw [Bool.eq_iff_iff, decide_eq_true_iff, List.length_filter_pos_iff, List.any_eq_true]
    simp only [deleteEntryByKey, except_bind_eq_ok, answered_eq_ok, Except.ok.injEq]
    exact ⟨_, deleteEntries_of_whole hw _, by rw [hone]⟩

/-- Of two entries that share a blob the first may go without it; the blob goes with
both of them, and the one that no entry refers to stays. -/
theorem collected_of_deletion_shared :
    let db : Db := { Db.empty with
      globals := some [.integer 5]
      blobs := some ⟨[⟨1, 2⟩, ⟨2, 1⟩, ⟨3, 1⟩], by decide, by decide⟩
      chunks := some ⟨[⟨1, 0, [7, 8]⟩, ⟨2, 0, [9]⟩, ⟨3, 0, [6]⟩], by decide, by decide⟩
      entries := some ⟨[⟨1, "a", 2, 1⟩, ⟨2, "b", 2, 1⟩, ⟨3, "c", 1, 2⟩], by decide, by decide⟩ }
    (∃ after, db.deleteEntryByKey "a" = .ok (true, after) ∧ after.blobRows = db.blobRows) ∧
    (∃ after, db.deleteEntriesThrough 2 = .ok (2, after) ∧
      after.entryRows = [⟨3, "c", 1, 2⟩] ∧ after.blobRows = [⟨2, 1⟩, ⟨3, 1⟩] ∧
      after.chunkRows = [⟨2, 0, [9]⟩, ⟨3, 0, [6]⟩]) := by
  intro db
  have hw : db.Whole := ⟨rfl, rfl, rfl, rfl, rfl⟩
  have hl : db.Linked := ⟨by decide, by decide⟩
  obtain ⟨hthrough, hkey⟩ := collected_of_deletion hw hl
  obtain ⟨one, hone, hcollected⟩ := hkey "a"
  obtain ⟨two, htwo, hboth⟩ := hthrough 2
  exact ⟨⟨one, hone, hcollected.blobs.trans (by decide)⟩, two, htwo,
    hboth.entries.trans (by decide), hboth.blobs.trans (by decide),
    hboth.chunks.trans (by decide)⟩

end Db

end BlobCache
