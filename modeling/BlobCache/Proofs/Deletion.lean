import BlobCache.Proofs.Statement

/-!
# Deleting entries

Entries are deleted one after the other, and each of them may take its blob
along.  What is left at the end does not depend on the way there: the database
`db.without p` has the entries that do not satisfy `p`, and the blobs and chunks
that outlive the others (`deleteEntries_eq`).  Chunks go with their blob only: those
whose blob is missing outlive every deletion (`outlives_of_not_mem`).

The proof goes through the rows to be deleted, smallest id first
(`foldlM_deleteEntry`).  A blob that several of them share goes with the last
one, which is why one deletion followed by the rest is the deletion of all
(`without_without`).
-/

namespace BlobCache

/-- Of a list without repetitions, the members of a sublist are the sublist. -/
theorem filter_mem_sublist {α : Type} [DecidableEq α] {l rows : List α}
    (h : l.Sublist rows) (hn : rows.Nodup) : rows.filter (· ∈ l) = l := by
  induction h with
  | slnil => rfl
  | @cons l rows a h ih =>
      rw [List.nodup_cons] at hn
      have ha : a ∉ l := by
        intro hmem
        exact hn.1 (h.subset hmem)
      rw [List.filter_cons_of_neg (by simpa using ha), ih hn.2]
  | @cons_cons l rows a h ih =>
      rw [List.nodup_cons] at hn
      have hsame : ∀ x ∈ rows, decide (x ∈ a :: l) = decide (x ∈ l) := by
        intro x hx
        have hne : x ≠ a := by
          rintro rfl
          exact hn.1 hx
        simp [hne]
      rw [List.filter_cons_of_pos (by simp), List.filter_congr hsame, ih hn.2]

namespace Db

variable {db db' : Db} {p q : EntryRow → Bool}

theorem nodup_entryRows (db : Db) : db.entryRows.Nodup :=
  db.entryRows_ascending.imp fun hlt heq => by rw [heq] at hlt; omega

/-- Whether a blob, or what there is of it, outlives the entries that satisfy `p`:
none of them refers to it, or an entry that stays does, or the blob is not there to
be deleted. -/
def outlives (p : EntryRow → Bool) (db : Db) (blob : Int) : Bool :=
  decide ((∀ e ∈ db.entryRows, p e = true → e.blob ≠ blob) ∨
    (∃ e ∈ db.entryRows, p e = false ∧ e.blob = blob) ∨ blob ∉ db.blobIds)

/-- The database without the entries that satisfy `p` and without the blobs and
chunks that do not outlive them. -/
def without (p : EntryRow → Bool) (db : Db) : Db :=
  { db with
    entries := db.entries.map (·.filter fun e => !p e)
    globals := db.globals.map (·.map fun t =>
      (db.entryRows.filter p).foldl (fun t e => (t.sub e.size).stored) t)
    blobs := db.blobs.map (·.filter fun b => db.outlives p b.id)
    chunks := db.chunks.map (·.filter fun c => db.outlives p c.blob) }

theorem outlives_iff {blob : Int} :
    db.outlives p blob = true ↔ (∀ e ∈ db.entryRows, p e = true → e.blob ≠ blob) ∨
      (∃ e ∈ db.entryRows, p e = false ∧ e.blob = blob) ∨ blob ∉ db.blobIds :=
  decide_eq_true_iff

/-- A blob that is there is at the mercy of the entries. -/
theorem outlives_iff_of_mem {blob : Int} (h : blob ∈ db.blobIds) :
    db.outlives p blob = true ↔ (∀ e ∈ db.entryRows, p e = true → e.blob ≠ blob) ∨
      ∃ e ∈ db.entryRows, p e = false ∧ e.blob = blob := by
  simp only [outlives_iff, h, not_true, or_false]

theorem outlives_of_not_mem {blob : Int} (h : blob ∉ db.blobIds) :
    db.outlives p blob = true :=
  outlives_iff.mpr (Or.inr (Or.inr h))

@[simp] theorem entryRows_without :
    (db.without p).entryRows = db.entryRows.filter fun e => !p e := by
  unfold entryRows without
  cases db.entries <;> rfl

@[simp] theorem blobRows_without :
    (db.without p).blobRows = db.blobRows.filter fun b => db.outlives p b.id := by
  simp only [blobRows, without]
  cases db.blobs <;> rfl

@[simp] theorem chunkRows_without :
    (db.without p).chunkRows = db.chunkRows.filter fun c => db.outlives p c.blob := by
  simp only [chunkRows, without]
  cases db.chunks <;> rfl

/-- What is left was there. -/
theorem mem_entryIds_of_without {id : Int} (h : id ∈ (db.without p).entryIds) :
    id ∈ db.entryIds := by
  obtain ⟨e, he, rfl⟩ := mem_entryIds.mp h
  rw [entryRows_without] at he
  exact mem_entryIds.mpr ⟨e, (List.mem_filter.mp he).1, rfl⟩

theorem mem_blobIds_of_without {id : Int} (h : id ∈ (db.without p).blobIds) :
    id ∈ db.blobIds := by
  obtain ⟨b, hb, rfl⟩ := mem_blobIds.mp h
  rw [blobRows_without] at hb
  exact mem_blobIds.mpr ⟨b, (List.mem_filter.mp hb).1, rfl⟩

theorem mem_blobIds_without {blob : Int} (h : blob ∈ db.blobIds)
    (hout : db.outlives p blob = true) : blob ∈ (db.without p).blobIds := by
  obtain ⟨b, hb, rfl⟩ := mem_blobIds.mp h
  refine mem_blobIds.mpr ⟨b, ?_, rfl⟩
  rw [blobRows_without]
  exact List.mem_filter.mpr ⟨hb, hout⟩

theorem Whole.without (h : db.Whole) (p : EntryRow → Bool) : (db.without p).Whole := by
  constructor <;> simp [Db.without, h.globals, h.blobs, h.chunks, h.entries, h.refused]

/-- The blob of an entry that stays outlives the deletion. -/
theorem outlives_of_kept {e : EntryRow} (he : e ∈ db.entryRows) (hp : p e = false) :
    db.outlives p e.blob = true :=
  outlives_iff.mpr (Or.inr (Or.inl ⟨e, he, hp, rfl⟩))

/-- Where no entry is to go, nothing changes. -/
theorem without_eq_self (h : ∀ e ∈ db.entryRows, p e = false) : db.without p = db := by
  have hout : ∀ blob, db.outlives p blob = true := by
    intro blob
    refine outlives_iff.mpr (Or.inl ?_)
    intro e he hp
    rw [h e he] at hp
    cases hp
  have hnone : db.entryRows.filter p = [] := List.filter_eq_nil_iff.mpr (by simpa using h)
  have hentries : db.entries.map (·.filter fun e => !p e) = db.entries := by
    apply Table.map_filter_eq_self
    intro t ht e he
    rw [h e (entryRows_of_some ht ▸ he)]
    rfl
  have hblobs : db.blobs.map (·.filter fun b => db.outlives p b.id) = db.blobs :=
    Table.map_filter_eq_self fun _ _ b _ => hout b.id
  have hchunks : db.chunks.map (·.filter fun c => db.outlives p c.blob) = db.chunks :=
    Table.map_filter_eq_self fun _ _ c _ => hout c.blob
  have hglobals : db.globals.map (·.map fun t =>
      (db.entryRows.filter p).foldl (fun t e => (t.sub e.size).stored) t) = db.globals := by
    rw [hnone]
    cases db.globals <;> simp
  simp only [without, hentries, hblobs, hchunks, hglobals]

/-- A blob outlives two deletions exactly when it outlives both at once. -/
theorem outlives_without (blob : Int) :
    (db.outlives p blob && (db.without p).outlives q blob) =
      db.outlives (fun e => p e || q e) blob := by
  by_cases hthere : blob ∈ db.blobIds
  swap
  · have hgone : blob ∉ (db.without p).blobIds := fun h => hthere (mem_blobIds_of_without h)
    rw [outlives_of_not_mem hthere, outlives_of_not_mem hgone, outlives_of_not_mem hthere]
    rfl
  rw [Bool.eq_iff_iff, Bool.and_eq_true, outlives_iff_of_mem hthere, outlives_iff,
    outlives_iff_of_mem hthere]
  simp only [entryRows_without, List.mem_filter, Bool.not_eq_true', Bool.or_eq_true,
    Bool.or_eq_false_iff]
  constructor
  · rintro ⟨hp, hq⟩
    -- what outlives the first deletion is still there for the second
    have hstays : blob ∈ (db.without p).blobIds :=
      mem_blobIds_without hthere ((outlives_iff_of_mem hthere).mpr hp)
    rcases hq with hq | ⟨e, ⟨he, hpe⟩, hqe, hblob⟩ | hgone
    · rcases hp with hp | ⟨e, he, hpe, hblob⟩
      · left
        intro e he hpq
        by_cases hpe : p e = true
        · exact hp e he hpe
        · exact hq e ⟨he, by simpa using hpe⟩ (hpq.resolve_left hpe)
      · right
        refine ⟨e, he, ⟨hpe, ?_⟩, hblob⟩
        by_contra hqe
        exact hq e ⟨he, hpe⟩ (by simpa using hqe) hblob
    · exact Or.inr ⟨e, he, ⟨hpe, hqe⟩, hblob⟩
    · exact absurd hstays hgone
  · rintro (hall | ⟨e, he, ⟨hpe, hqe⟩, hblob⟩)
    · exact ⟨Or.inl fun e he hpe => hall e he (Or.inl hpe),
        Or.inl fun e he hqe => hall e he.1 (Or.inr hqe)⟩
    · exact ⟨Or.inr ⟨e, he, hpe, hblob⟩, Or.inr (Or.inl ⟨e, ⟨he, hpe⟩, hqe, hblob⟩)⟩

/-- Two deletions, the entries of the first before those of the second, are one. -/
theorem without_without
    (horder : db.entryRows.filter (fun e => p e || q e) =
      db.entryRows.filter p ++ (db.entryRows.filter fun e => !p e).filter q) :
    (db.without p).without q = db.without fun e => p e || q e := by
  have hentries : (db.without p).entries.map (·.filter fun e => !q e) =
      db.entries.map (·.filter fun e => !(p e || q e)) := by
    simp only [without, Table.map_filter_filter, Bool.not_or]
  have hblobs : (db.without p).blobs.map (·.filter fun b => (db.without p).outlives q b.id) =
      db.blobs.map (·.filter fun b => db.outlives (fun e => p e || q e) b.id) := by
    simp only [← outlives_without]
    exact Table.map_filter_filter db.blobs _ _
  have hchunks :
      (db.without p).chunks.map (·.filter fun c => (db.without p).outlives q c.blob) =
      db.chunks.map (·.filter fun c => db.outlives (fun e => p e || q e) c.blob) := by
    simp only [← outlives_without]
    exact Table.map_filter_filter db.chunks _ _
  have hglobals : (db.without p).globals.map (·.map fun t =>
        ((db.without p).entryRows.filter q).foldl (fun t e => (t.sub e.size).stored) t) =
      db.globals.map (·.map fun t => (db.entryRows.filter fun e => p e || q e).foldl
        (fun t e => (t.sub e.size).stored) t) := by
    rw [horder, entryRows_without]
    simp only [without, Option.map_map]
    congr 1
    funext totals
    simp [List.foldl_append]
  unfold without at hentries hblobs hchunks hglobals ⊢
  simp only [hentries, hblobs, hchunks, hglobals]

/-- Collecting a blob looks once whether it is to stay, and then goes by the blob. -/
theorem collectBlob_eq (blob : Int) (db : Db) :
    db.collectBlob blob =
      let stays := db.refersTo blob || !db.blobIds.contains blob
      { db with
        blobs := db.blobs.map (·.filter fun b => stays || decide (b.id ≠ blob))
        chunks := db.chunks.map (·.filter fun c => stays || decide (c.blob ≠ blob)) } := by
  unfold collectBlob dropBlob
  cases db.refersTo blob <;> cases db.blobIds.contains blob <;>
    simp [Table.map_filter_eq_self]

/-- A blob outlives one entry when it is not that entry's, or another entry refers to
it too, or that entry's blob is not there. -/
theorem outlives_one {e : EntryRow} (he : e ∈ db.entryRows) (blob : Int) :
    db.outlives (· = e) blob =
      ((db.entryRows.filter fun r => !decide (r = e)).any (·.blob = e.blob) ||
        !db.blobIds.contains e.blob || decide (blob ≠ e.blob)) := by
  by_cases hblob : blob = e.blob
  · subst hblob
    have hhere : ¬ ∀ r ∈ db.entryRows, r = e → r.blob ≠ e.blob := fun hall => hall e he rfl rfl
    rw [Bool.eq_iff_iff, outlives_iff]
    simp [hhere]
  · have hother : db.outlives (· = e) blob = true := by
      refine outlives_iff.mpr (Or.inl ?_)
      rintro r - hr rfl
      exact hblob (congrArg EntryRow.blob (of_decide_eq_true hr))
    rw [hother, decide_eq_true hblob, Bool.or_true]

/-- There is one row that is `e`. -/
theorem filter_eq_of_mem {e : EntryRow} (he : e ∈ db.entryRows) :
    db.entryRows.filter (· = e) = [e] := by
  simpa using filter_mem_sublist (List.singleton_sublist.mpr he) db.nodup_entryRows

/-- The rows to be deleted after the first are rows of what it leaves. -/
theorem sublist_of_cons {e : EntryRow} {l : List EntryRow}
    (hl : (e :: l).Sublist db.entryRows) :
    l.Sublist (db.entryRows.filter fun r => !decide (r = e)) := by
  have hnotin : e ∉ l := (List.nodup_cons.mp (db.nodup_entryRows.sublist hl)).1
  have hstay : (e :: l).filter (fun r => !decide (r = e)) = l := by
    rw [List.filter_cons_of_neg (by simp)]
    apply List.filter_eq_self.mpr
    intro r hr
    have : r ≠ e := by
      rintro rfl
      exact hnotin hr
    simp [this]
  have := hl.filter fun r => !decide (r = e)
  rwa [hstay] at this

/-- Deleting one entry takes out that entry. -/
theorem deleteEntry_eq {e : EntryRow} (he : e ∈ db.entryRows)
    (h : db.deleteEntry e = some db') : db' = db.without (· = e) := by
  simp only [deleteEntry, Option.bind_eq_bind, Option.bind_none, Option.bind_eq_some_iff,
    Option.ite_none_left_eq_some] at h
  obtain ⟨entries, hentries, -, counted, hcounted, ⟨⟩⟩ := h
  obtain ⟨totals, htotals, -, rfl⟩ := mapTotals_eq_some.mp hcounted
  replace htotals : db.globals = some totals := htotals
  have hrows := entryRows_of_some hentries
  have hshorter :
      entries.filter (fun r => r.id ≠ e.id) = entries.filter fun r => !decide (r = e) := by
    apply Table.filter_congr
    intro r hr
    have : r.id = e.id ↔ r = e :=
      ⟨entry_eq_of_id (hrows ▸ hr) he, fun heq => heq ▸ rfl⟩
    simp [this]
  rw [collectBlob_eq]
  simp only [without, filter_eq_of_mem he, outlives_one he, hentries, hshorter, htotals]
  simp only [hrows]
  rfl

/-- Deleting entries one after the other takes them all out. -/
theorem foldlM_deleteEntry {l : List EntryRow} (hl : l.Sublist db.entryRows)
    (h : l.foldlM deleteEntry db = some db') : db' = db.without (· ∈ l) := by
  induction l generalizing db with
  | nil =>
      cases h
      exact (without_eq_self fun e _ => by simp).symm
  | cons e l ih =>
      rw [List.foldlM_cons] at h
      obtain ⟨mid, hmid, hrest⟩ := Option.bind_eq_some_iff.mp h
      have he : e ∈ db.entryRows := hl.subset (by simp)
      obtain rfl := deleteEntry_eq he hmid
      have hl' := sublist_of_cons hl
      have hrestRows : (db.entryRows.filter fun r => !decide (r = e)).filter (· ∈ l) = l :=
        filter_mem_sublist hl' (db.nodup_entryRows.filter _)
      have hboth : (fun r => decide (r = e) || decide (r ∈ l)) = fun r => decide (r ∈ e :: l) := by
        funext r
        simp
      have hall : db.entryRows.filter (fun r => decide (r = e) || decide (r ∈ l)) = e :: l := by
        rw [hboth]
        exact filter_mem_sublist hl db.nodup_entryRows
      have horder : db.entryRows.filter (fun r => decide (r = e) || decide (r ∈ l)) =
          db.entryRows.filter (· = e) ++
            (db.entryRows.filter fun r => !decide (r = e)).filter (· ∈ l) := by
        rw [hall, filter_eq_of_mem he, hrestRows]
        rfl
      rw [ih (by simpa using hl') hrest, without_without horder, hboth]

theorem without_congr (h : ∀ e ∈ db.entryRows, p e = q e) : db.without p = db.without q := by
  have hout : db.outlives p = db.outlives q := by
    funext blob
    have hdoomed : (∀ e ∈ db.entryRows, p e = true → e.blob ≠ blob) ↔
        ∀ e ∈ db.entryRows, q e = true → e.blob ≠ blob :=
      forall₂_congr fun e he => by rw [h e he]
    have hkept : (∃ e ∈ db.entryRows, p e = false ∧ e.blob = blob) ↔
        ∃ e ∈ db.entryRows, q e = false ∧ e.blob = blob :=
      exists_congr fun e => and_congr_right fun he => by rw [h e he]
    rw [Bool.eq_iff_iff, outlives_iff, outlives_iff, hdoomed, hkept]
  have hentries : db.entries.map (·.filter fun e => !p e) =
      db.entries.map (·.filter fun e => !q e) := by
    apply Option.map_congr
    intro t ht
    apply Table.filter_congr
    intro e he
    rw [h e (entryRows_of_some ht ▸ he)]
  simp only [without, hout, hentries, List.filter_congr h]

/-- A deletion deletes the entries that satisfy `p`, one after the other. -/
theorem deleteEntries_eq_some {n : Nat} (h : db.deleteEntries p = some (n, db')) :
    n = (db.entryRows.filter p).length ∧
      (db.entryRows.filter p).foldlM deleteEntry db = some db' := by
  simp only [deleteEntries, Option.bind_eq_bind, Option.bind_eq_some_iff] at h
  obtain ⟨entries, hentries, _, -, _, -, after, hafter, ⟨⟩⟩ := h
  rw [entryRows_of_some hentries]
  exact ⟨rfl, hafter⟩

/-- **What a deletion leaves.**  If it goes through, the entries that satisfy `p`
are gone, and with them the blobs and chunks that do not outlive them. -/
theorem deleteEntries_eq {n : Nat} (h : db.deleteEntries p = some (n, db')) :
    n = (db.entryRows.filter p).length ∧ db' = db.without p := by
  obtain ⟨hcount, hafter⟩ := deleteEntries_eq_some h
  refine ⟨hcount, ?_⟩
  rw [foldlM_deleteEntry List.filter_sublist hafter]
  apply without_congr
  intro e he
  rw [Bool.eq_iff_iff]
  simp [he]

theorem exists_deleteEntry {e : EntryRow} (hw : db.Whole) :
    ∃ db', db.deleteEntry e = some db' := by
  obtain ⟨entries, hentries⟩ := Option.isSome_iff_exists.mp hw.entries
  obtain ⟨totals, htotals⟩ := Option.isSome_iff_exists.mp hw.globals
  obtain ⟨counted, hcounted⟩ : ∃ counted,
      ({ db with entries := some (entries.filter (·.id ≠ e.id)) } : Db).mapTotals
        (fun t => (t.sub e.size).stored) = some counted :=
    ⟨_, mapTotals_eq_some.mpr ⟨totals, htotals, Or.inr (hw.admits .updateTotal), rfl⟩⟩
  refine ⟨counted.collectBlob e.blob, ?_⟩
  simp only [deleteEntry, Option.bind_eq_bind, Option.bind_none, Option.bind_eq_some_iff,
    Option.ite_none_left_eq_some]
  exact ⟨entries, hentries, by simp [hw.admits], counted, hcounted, rfl⟩

/-- A database that refuses nothing deletes what it is told to. -/
theorem exists_foldlM_deleteEntry {l : List EntryRow} (hw : db.Whole)
    (hl : l.Sublist db.entryRows) : ∃ db', l.foldlM deleteEntry db = some db' := by
  induction l generalizing db with
  | nil => exact ⟨db, rfl⟩
  | cons e l ih =>
      have he : e ∈ db.entryRows := hl.subset (by simp)
      obtain ⟨mid, hmid⟩ := exists_deleteEntry (e := e) hw
      obtain rfl := deleteEntry_eq he hmid
      obtain ⟨after, hafter⟩ := ih (hw.without _) (by simpa using sublist_of_cons hl)
      exact ⟨after, by simp [List.foldlM_cons, hmid, hafter]⟩

theorem deleteEntries_of_whole (hw : db.Whole) (p : EntryRow → Bool) :
    db.deleteEntries p = some ((db.entryRows.filter p).length, db.without p) := by
  obtain ⟨entries, hentries⟩ := Option.isSome_iff_exists.mp hw.entries
  obtain ⟨totals, htotals⟩ := Option.isSome_iff_exists.mp hw.globals
  obtain ⟨blobs, hblobs⟩ := Option.isSome_iff_exists.mp hw.blobs
  obtain ⟨after, hafter⟩ := exists_foldlM_deleteEntry hw (List.filter_sublist (p := p))
  have hrows := entryRows_of_some hentries
  have hdone : db.deleteEntries p = some ((db.entryRows.filter p).length, after) := by
    simp only [deleteEntries, Option.bind_eq_bind, Option.bind_eq_some_iff]
    rw [hrows] at hafter ⊢
    exact ⟨entries, hentries, totals, htotals, blobs, hblobs, after, hafter, rfl⟩
  rw [hdone, ← (deleteEntries_eq hdone).2]

end Db

end BlobCache
