import BlobCache.Proofs.References
import BlobCache.Proofs.Session

/-!
# Entries, blobs and chunks belong together

In every database that tiers commit, the entries and the blobs correspond one to
one, an entry is as large as its blob, and the chunks of a blob are numbered
without gaps and add up to its size (`Consistent`).  The tables alone do not
give this: a blob without an entry, a blob that two entries share, or one that
is too short would all be accepted.

What carries the proof is `Intact`, which allows for one blob that is waiting
for its entry.  A put adds such a blob (`Intact.blobAdded`), deletes entries
while it waits (`Intact.without`), and gives it its entry and its chunks
(`Intact.filled`).  Together with the frame of the other acts this makes
consistency an invariant of runs (`consistent_of_mem_history`).
-/

namespace BlobCache

namespace Db

/-- Entries, blobs and chunks belong together. -/
structure Consistent (db : Db) : Prop where
  /-- No key occurs twice. -/
  keys : (db.entryRows.map (·.key)).Nodup
  /-- Every entry refers to one blob. -/
  blob : ∀ e ∈ db.entryRows, ∃! b, b ∈ db.blobRows ∧ b.id = e.blob
  /-- Every blob is referred to by one entry. -/
  owner : ∀ b ∈ db.blobRows, ∃! e, e ∈ db.entryRows ∧ e.blob = b.id
  /-- An entry is as large as its blob. -/
  size : ∀ e ∈ db.entryRows, ∀ b ∈ db.blobRows, b.id = e.blob → b.size = e.size
  /-- Every chunk belongs to a blob. -/
  home : ∀ c ∈ db.chunkRows, ∃ b ∈ db.blobRows, b.id = c.blob
  /-- The chunks of a blob are laid out without gaps and add up to its size. -/
  laid : ∀ b ∈ db.blobRows, Laid b.size (db.chunkRowsOf b.id)

/-- Entries, blobs and chunks belong together, but for a blob that waits for its
entry. -/
structure Intact (waiting : Option Int) (db : Db) : Prop where
  apart : ∀ a ∈ db.entryRows, ∀ b ∈ db.entryRows, a.blob = b.blob → a = b
  stock : ∀ e ∈ db.entryRows, (⟨e.blob, e.size⟩ : BlobRow) ∈ db.blobRows
  taken : ∀ e ∈ db.entryRows, some e.blob ≠ waiting
  owned : ∀ b ∈ db.blobRows, some b.id = waiting ∨ ∃ e ∈ db.entryRows, e.blob = b.id
  home : ∀ c ∈ db.chunkRows, c.blob ∈ db.blobIds ∧ some c.blob ≠ waiting
  laid : ∀ b ∈ db.blobRows, some b.id ≠ waiting → Laid b.size (db.chunkRowsOf b.id)

variable {db db' : Db} {waiting : Option Int}

theorem mem_blobIds_of_mem {b : BlobRow} (h : b ∈ db.blobRows) : b.id ∈ db.blobIds :=
  mem_blobIds.mpr ⟨b, h, rfl⟩

namespace Intact

/-- With no blob waiting, everything belongs together. -/
theorem consistent (h : db.Intact none) : db.Consistent where
  keys := db.nodup_keys
  blob e he := by
    refine ⟨⟨e.blob, e.size⟩, ⟨h.stock e he, rfl⟩, ?_⟩
    rintro b ⟨hb, hid⟩
    exact blob_eq_of_id hb (h.stock e he) hid
  owner b hb := by
    obtain ⟨e, he, hblob⟩ := (h.owned b hb).resolve_left (by simp)
    refine ⟨e, ⟨he, hblob⟩, ?_⟩
    rintro e' ⟨he', hblob'⟩
    exact h.apart e' he' e he (hblob'.trans hblob.symm)
  size e he b hb hid := by
    rw [blob_eq_of_id hb (h.stock e he) hid]
  home c hc := mem_blobIds.mp (h.home c hc).1
  laid b hb := h.laid b hb (by simp)

/-- What belongs together is linked. -/
theorem linked (h : db.Intact waiting) : db.Linked :=
  ⟨fun e he => mem_blobIds_of_mem (h.stock e he), fun c hc => (h.home c hc).1⟩

/-- A database without rows has nothing that could go wrong. -/
theorem empty : Intact none .empty := by
  constructor <;> intro x hx <;> cases hx

/-- What holds of the rows goes with the rows. -/
theorem sameRows (h : db.Intact waiting) (hsame : db.SameRows db') : db'.Intact waiting := by
  have hids : db'.blobIds = db.blobIds := by rw [blobIds, hsame.blobs]; rfl
  have hof : ∀ blob, db'.chunkRowsOf blob = db.chunkRowsOf blob := by
    intro blob
    rw [chunkRowsOf, hsame.chunks]
    rfl
  constructor
  · rw [hsame.entries]
    exact h.apart
  · rw [hsame.entries, hsame.blobs]
    exact h.stock
  · rw [hsame.entries]
    exact h.taken
  · rw [hsame.entries, hsame.blobs]
    exact h.owned
  · rw [hsame.chunks, hids]
    exact h.home
  · simp only [hsame.blobs, hof]
    exact h.laid

/-- Deleted entries take their blobs along, and only these. -/
theorem without (h : db.Intact waiting) (p : EntryRow → Bool) :
    (db.without p).Intact waiting := by
  constructor <;> simp only [entryRows_without, blobRows_without, chunkRows_without,
    List.mem_filter, Bool.not_eq_true', and_imp]
  · intro a ha _ b hb _ hblob
    exact h.apart a ha b hb hblob
  · intro e he hp
    exact ⟨h.stock e he, outlives_of_kept he hp⟩
  · intro e he _
    exact h.taken e he
  · intro b hb hout
    rcases h.owned b hb with hwait | ⟨e, he, hblob⟩
    · exact Or.inl hwait
    · have hthere := mem_blobIds_of_mem hb
      rcases (outlives_iff_of_mem hthere).mp hout with hnone | ⟨x, hx, hpx, hxblob⟩
      · refine Or.inr ⟨e, ⟨he, ?_⟩, hblob⟩
        by_contra hp
        exact hnone e he (by simpa using hp) hblob
      · exact Or.inr ⟨x, ⟨hx, hpx⟩, hxblob⟩
  · intro c hc hout
    obtain ⟨hhome, hne⟩ := h.home c hc
    obtain ⟨b, hb, hid⟩ := mem_blobIds.mp hhome
    refine ⟨mem_blobIds.mpr ⟨b, ?_, hid⟩, hne⟩
    rw [blobRows_without, List.mem_filter, hid]
    exact ⟨hb, hout⟩
  · intro b hb hout hne
    rw [chunkRowsOf_without hout]
    exact h.laid b hb hne

/-- A new blob waits for its entry. -/
theorem blobAdded {row : BlobRow} (h : db.Intact none) (hadded : BlobAdded row db db') :
    db'.Intact (some row.id) := by
  have hentries := hadded.entryRows_eq
  have hchunks := hadded.chunkRows_eq
  have hmem : ∀ b, b ∈ db'.blobRows ↔ b = row ∨ b ∈ db.blobRows := by
    intro b
    rw [hadded.rows, Table.mem_place]
  have hfresh : ∀ {id}, id ∈ db.blobIds → some id ≠ some row.id := by
    intro id hid heq
    exact hadded.fresh (Option.some.inj heq ▸ hid)
  constructor <;> simp only [hentries, hchunks, hmem]
  · exact h.apart
  · intro e he
    exact Or.inr (h.stock e he)
  · intro e he
    exact hfresh (mem_blobIds_of_mem (h.stock e he))
  · rintro b (rfl | hb)
    · exact Or.inl rfl
    · exact Or.inr ((h.owned b hb).resolve_left (by simp))
  · intro c hc
    have hhome := (h.home c hc).1
    obtain ⟨b, hb, hid⟩ := mem_blobIds.mp hhome
    exact ⟨mem_blobIds.mpr ⟨b, (hmem b).mpr (Or.inr hb), hid⟩, hfresh hhome⟩
  · rintro b (rfl | hb) hne
    · exact absurd rfl hne
    · rw [chunkRowsOf, hchunks]
      exact h.laid b hb (by simp)

/-- A blob that waits has no chunks. -/
theorem chunkRowsOf_waiting {blob : Int} (h : db.Intact (some blob)) :
    db.chunkRowsOf blob = [] := by
  apply List.eq_nil_iff_forall_not_mem.mpr
  intro c hc
  obtain ⟨hc, hblob⟩ := mem_chunkRowsOf.mp hc
  exact (h.home c hc).2 (congrArg some hblob)

/-- A blob that waits outlives every deletion. -/
theorem mem_blobRows_without {b : BlobRow} (h : db.Intact (some b.id)) (hb : b ∈ db.blobRows)
    (p : EntryRow → Bool) : b ∈ (db.without p).blobRows := by
  rw [blobRows_without, List.mem_filter]
  refine ⟨hb, outlives_iff.mpr (Or.inl ?_)⟩
  intro e he _ hblob
  exact h.taken e he (congrArg some hblob)

/-- With its entry and its chunks, a blob does not wait any longer. -/
theorem filled {listed : Db} {id blob size : Int} {key : String} {rows : List ChunkRow}
    (h : db.Intact (some blob)) (hblob : (⟨blob, size⟩ : BlobRow) ∈ db.blobRows)
    (hentered : EntryAdded ⟨id, key, size, blob⟩ db listed)
    (hcopied : Copied blob rows listed db') (hlaid : Laid size rows) : db'.Intact none := by
  have hblobs : db'.blobRows = db.blobRows := by
    have : db'.blobRows = listed.blobRows := by rw [hcopied.frame]; rfl
    rw [this, hentered.blobRows_eq]
  have hids : db'.blobIds = db.blobIds := by rw [blobIds, hblobs]; rfl
  have hmem : ∀ e, e ∈ db'.entryRows ↔ e = ⟨id, key, size, blob⟩ ∨ e ∈ db.entryRows := by
    intro e
    rw [hcopied.entryRows_eq, hentered.rows, Table.mem_place]
  have hchunks := hentered.chunkRows_eq
  have hown : db'.chunkRowsOf blob = rows := by
    rw [hcopied.own, chunkRowsOf, hchunks]
    exact congrArg (· ++ rows) h.chunkRowsOf_waiting
  have hothers : ∀ other, other ≠ blob → db'.chunkRowsOf other = db.chunkRowsOf other := by
    intro other hne
    rw [hcopied.others other hne, chunkRowsOf, hchunks]
    rfl
  have hapart : ∀ e ∈ db.entryRows, e.blob ≠ blob := by
    intro e he heq
    exact h.taken e he (congrArg some heq)
  constructor <;> simp only [hblobs, hids, hmem]
  · rintro a (rfl | ha) b (rfl | hb) heq
    · rfl
    · exact absurd heq.symm (hapart b hb)
    · exact absurd heq (hapart a ha)
    · exact h.apart a ha b hb heq
  · rintro e (rfl | he)
    · exact hblob
    · exact h.stock e he
  · intro e _
    simp
  · intro b hb
    rcases h.owned b hb with hwait | ⟨e, he, heq⟩
    · exact Or.inr ⟨_, Or.inl rfl, (Option.some.inj hwait).symm⟩
    · exact Or.inr ⟨e, Or.inr he, heq⟩
  · intro c hc
    refine ⟨?_, by simp⟩
    by_cases hcb : c.blob = blob
    · exact hcb ▸ mem_blobIds_of_mem hblob
    · have hc' : c ∈ db'.chunkRowsOf c.blob := mem_chunkRowsOf.mpr ⟨hc, rfl⟩
      rw [hothers c.blob hcb] at hc'
      exact (h.home c (mem_chunkRowsOf.mp hc').1).1
  · intro b hb _
    by_cases hid : b.id = blob
    · obtain rfl := blob_eq_of_id hb hblob hid
      rw [hown]
      exact hlaid
    · rw [hothers b.id hid]
      exact h.laid b hb fun heq => hid (Option.some.inj heq)

/-- An entry that moves keeps its blob. -/
theorem entryMoved {e : EntryRow} {top : Int} (h : db.Intact none)
    (hmoved : EntryMoved e top db db') : db'.Intact none := by
  have hblobs := hmoved.blobRows_eq
  have hids := hmoved.blobIds_eq
  have hchunks := hmoved.chunkRows_eq
  have hof : ∀ blob, db'.chunkRowsOf blob = db.chunkRowsOf blob := by
    intro blob
    rw [chunkRowsOf, hchunks]
    rfl
  have hmem : ∀ x, x ∈ db'.entryRows ↔ (x ∈ db.entryRows ∧ x ≠ e) ∨ x = { e with id := top } := by
    intro x
    rw [hmoved.rows, List.mem_append, List.mem_filter, List.mem_singleton, decide_eq_true_iff]
  constructor <;> simp only [hblobs, hids, hchunks, hof, hmem]
  · rintro a (⟨ha, hae⟩ | rfl) b (⟨hb, hbe⟩ | rfl) heq
    · exact h.apart a ha b hb heq
    · exact absurd (h.apart a ha e hmoved.mem heq) hae
    · exact absurd (h.apart b hb e hmoved.mem heq.symm) hbe
    · rfl
  · rintro x (⟨hx, -⟩ | rfl)
    · exact h.stock x hx
    · exact h.stock e hmoved.mem
  · intro x _
    simp
  · intro b hb
    obtain ⟨x, hx, hblob⟩ := (h.owned b hb).resolve_left (by simp)
    by_cases hxe : x = e
    · exact Or.inr ⟨_, Or.inr rfl, hxe ▸ hblob⟩
    · exact Or.inr ⟨x, Or.inl ⟨hx, hxe⟩, hblob⟩
  · exact h.home
  · exact h.laid

end Intact

end Db

section Writing

variable {tier : Tier} {key : String} {file : Readable} {db db' : Db}

/-- The blob of a put waits while the old entry of the key is deleted. -/
theorem Filling.intact_cleared (f : Filling key file db db') (h : db.Intact none) :
    (f.stocked.without (·.key = key)).Intact (some f.blob) :=
  (h.blobAdded f.added).without _

theorem Filling.intact (f : Filling key file db db') (h : db.Intact none) : db'.Intact none := by
  have hmem : (⟨f.blob, file.size⟩ : BlobRow) ∈ f.stocked.blobRows := by
    rw [f.added.rows, Table.mem_place]
    exact Or.inl rfl
  have hlaid := laid_pieces f.blob (file.content.take file.size)
  rw [List.length_take, Nat.min_eq_left f.long] at hlaid
  exact (f.intact_cleared h).filled ((h.blobAdded f.added).mem_blobRows_without hmem _) f.entered
    (f.copied_of_linked h.linked) hlaid

theorem Evicted.intact {required : Nat} {taken rest : List EntryRow}
    (h : Evicted required taken rest db db') (hi : db.Intact none) : db'.Intact none := by
  rw [h.left]
  exact hi.without _

/-- **A put keeps things together.** -/
theorem Writing.intact (w : Writing tier key file db db') (h : db.Intact none) :
    db'.Intact none :=
  w.filling.intact (w.evicted.intact h)

end Writing

namespace Site

variable {site : Site}

/-- Every act keeps things together. -/
theorem intact_act (h : site.db.Intact none) (step : Act) : (site.act step).db.Intact none := by
  rcases site.act_cases step with ⟨_, _, _, -, -, -, ⟨w⟩⟩ | ⟨-, e, top, hmoved⟩ | ⟨-, hsame, -⟩
  · exact w.intact h
  · exact h.entryMoved hmoved
  · exact h.sameRows hsame

theorem intact_commits (h : site.db.Intact none) (step : Act) :
    ∀ db ∈ site.commits step, db.Intact none := by
  intro db hdb
  rcases of_mem_commits hdb with rfl | ⟨-, rfl⟩
  · exact intact_act h step
  · exact h.sameRows (site.db.migrate_sameRows _)

/-- **Consistency is an invariant.**  Whatever tiers are opened at a fresh
location, and whatever they are asked in whatever order, with whatever outcome:
in every database that is ever committed, entries, blobs and chunks belong
together. -/
theorem consistent_of_mem_history (location : Location) (acts : List Act) {db : Db}
    (hdb : db ∈ ({ location } : Site).history acts) : db.Consistent :=
  (history_of_step (Db.Intact none) Db.Intact.empty
    (fun _ step h => intact_commits h step) acts db hdb).consistent

/-- Two tiers take turns; the second put under the key evicts the first. -/
theorem consistent_of_two_tiers :
    ∃ db ∈ ({ location := .file "x" } : Site).history
      [.open 4 none, .open 9 none,
        .ask 0 (.put "a" ⟨"f", some ⟨3, [1, 2, 3]⟩⟩), .ask 1 (.put "b" ⟨"g", some ⟨2, [4, 5]⟩⟩),
        .ask 0 (.put "a" ⟨"h", some ⟨1, [6]⟩⟩)],
      db.Consistent ∧ db.entryRows = [⟨2, "b", 2, 2⟩, ⟨3, "a", 1, 3⟩] :=
  ⟨_, db_run_mem_history _ _, consistent_of_mem_history _ _ (db_run_mem_history _ _),
    by decide +kernel⟩

end Site

end BlobCache
