import BlobCache.Cache.Tier
import BlobCache.Proofs.Statement
import BlobCache.Proofs.Work

/-!
# Payloads in pieces

A payload is stored as chunks of `chunkSize` bytes, the last of which may be
shorter (`pieces`).  Copying in adds exactly these chunks to the blob, and to no
other (`copyIn_ok`); it succeeds when the file holds as many bytes as it reports
(`exists_copyIn`), and otherwise fails with the chunks in place that the file has
filled (`copyIn_short`).  Put together again, the pieces are the payload
(`flatten_pieces`), and they are laid out as a stored blob has to be
(`laid_pieces`).
-/

namespace BlobCache

/-- The chunks of a payload, numbered from `seq` on. -/
def pieces (blob seq : Int) (content : Bytes) : List ChunkRow :=
  if content = [] then []
  else { blob, seq, data := content.take chunkSize } ::
    pieces blob (seq + 1) (content.drop chunkSize)
termination_by content.length
decreasing_by
  rename_i hne
  have := List.length_pos_iff.mpr hne
  simp only [List.length_drop, chunkSize]
  omega

/-- The chunks of a blob that holds `size` bytes: numbered from zero, none of
them empty, and all but the last of full size. -/
structure Laid (size : Int) (rows : List ChunkRow) : Prop where
  numbered : rows.map (·.seq) = (List.range rows.length).map fun n : Nat => (n : Int)
  nonempty : ∀ c ∈ rows, c.data ≠ []
  full : ∀ c ∈ rows.dropLast, c.data.length = chunkSize
  filled : (((rows.map fun c => c.data.length).sum : Nat) : Int) = size

section Pieces

variable {blob seq : Int} {content : Bytes}

theorem pieces_nil : pieces blob seq [] = [] := by
  rw [pieces, if_pos rfl]

theorem pieces_of_ne (h : content ≠ []) :
    pieces blob seq content = { blob, seq, data := content.take chunkSize } ::
      pieces blob (seq + 1) (content.drop chunkSize) := by
  rw [pieces, if_neg h]

theorem flatten_pieces (blob seq : Int) (content : Bytes) :
    ((pieces blob seq content).map (·.data)).flatten = content := by
  induction hn : content.length using Nat.strongRecOn generalizing seq content with
  | ind n ih =>
      by_cases h : content = []
      · rw [h, pieces_nil]; rfl
      · have hpos := List.length_pos_iff.mpr h
        rw [pieces_of_ne h, List.map_cons, List.flatten_cons,
          ih _ (by simp only [← hn, List.length_drop, chunkSize]; omega) _ _ rfl,
          List.take_append_drop]

/-- Every piece belongs to the blob, and is neither empty nor too long. -/
theorem of_mem_pieces {c : ChunkRow} (hc : c ∈ pieces blob seq content) :
    c.blob = blob ∧ c.data ≠ [] ∧ seq ≤ c.seq := by
  induction hn : content.length using Nat.strongRecOn generalizing seq content with
  | ind n ih =>
      by_cases h : content = []
      · rw [h, pieces_nil] at hc; cases hc
      · have hpos := List.length_pos_iff.mpr h
        rw [pieces_of_ne h] at hc
        rcases List.mem_cons.mp hc with rfl | hc
        · refine ⟨rfl, ?_, Int.le_refl _⟩
          simpa [chunkSize, List.take_eq_nil_iff] using h
        · obtain ⟨hblob, hne, hseq⟩ :=
            ih _ (by simp only [← hn, List.length_drop, chunkSize]; omega) hc rfl
          exact ⟨hblob, hne, by omega⟩

theorem seqs_pieces (blob seq : Int) (content : Bytes) :
    (pieces blob seq content).map (·.seq) =
      (List.range (pieces blob seq content).length).map fun n : Nat => seq + n := by
  induction hn : content.length using Nat.strongRecOn generalizing seq content with
  | ind n ih =>
      by_cases h : content = []
      · rw [h, pieces_nil]; rfl
      · have hpos := List.length_pos_iff.mpr h
        rw [pieces_of_ne h, List.map_cons, List.length_cons, List.range_succ_eq_map, List.map_cons,
          ih _ (by simp only [← hn, List.length_drop, chunkSize]; omega) _ _ rfl, List.map_map]
        simp only [Int.natCast_zero, Int.add_zero, List.cons.injEq, true_and]
        apply List.map_congr_left
        intro k _
        simp only [Function.comp_apply, Int.natCast_succ]
        omega

/-- All pieces but the last are full. -/
theorem full_pieces {c : ChunkRow} (hc : c ∈ (pieces blob seq content).dropLast) :
    c.data.length = chunkSize := by
  induction hn : content.length using Nat.strongRecOn generalizing seq content with
  | ind n ih =>
      by_cases h : content = []
      · rw [h, pieces_nil] at hc; cases hc
      · have hpos := List.length_pos_iff.mpr h
        rw [pieces_of_ne h] at hc
        by_cases hrest : content.drop chunkSize = []
        · rw [hrest, pieces_nil] at hc; cases hc
        · rw [pieces_of_ne hrest, List.dropLast_cons_of_ne_nil (by simp),
            ← pieces_of_ne hrest] at hc
          rcases List.mem_cons.mp hc with rfl | hc
          · have hlong : chunkSize < content.length := by
              by_contra hshort
              exact hrest (List.drop_eq_nil_iff.mpr (by omega))
            rw [List.length_take]
            omega
          · exact ih _ (by simp only [← hn, List.length_drop, chunkSize]; omega) hc rfl

/-- There are as many pieces as it takes to hold the payload. -/
theorem length_pieces (blob seq : Int) (content : Bytes) :
    (pieces blob seq content).length = (content.length + (chunkSize - 1)) / chunkSize := by
  induction hn : content.length using Nat.strongRecOn generalizing seq content with
  | ind n ih =>
      subst hn
      by_cases h : content = []
      · rw [h, pieces_nil]; rfl
      · have hpos := List.length_pos_iff.mpr h
        rw [pieces_of_ne h, List.length_cons,
          ih _ (by simp only [List.length_drop, chunkSize]; omega) _ _ rfl, List.length_drop]
        simp only [chunkSize]
        omega

/-- The pieces of a payload are laid out as a blob of its length. -/
theorem laid_pieces (blob : Int) (content : Bytes) :
    Laid content.length (pieces blob 0 content) where
  numbered := by simpa using seqs_pieces blob 0 content
  nonempty _ hc := (of_mem_pieces hc).2.1
  full _ hc := full_pieces hc
  filled := by
    have := congrArg List.length (flatten_pieces blob 0 content)
    rw [List.length_flatten, List.map_map] at this
    exact congrArg Nat.cast this

end Pieces

namespace Db

/-- The rows of a blob's chunks, in reading order. -/
def chunkRowsOf (db : Db) (blob : Int) : List ChunkRow :=
  db.chunkRows.filter (·.blob = blob)

variable {db db' mid : Db} {blob : Int}

theorem chunksOf_eq : db.chunksOf blob = (db.chunkRowsOf blob).map (·.data) := rfl

theorem mem_chunkRowsOf {c : ChunkRow} :
    c ∈ db.chunkRowsOf blob ↔ c ∈ db.chunkRows ∧ c.blob = blob := by
  simp [chunkRowsOf]

/-- The chunks of a blob are read in the order of their numbers. -/
theorem chunkRowsOf_ascending (db : Db) (blob : Int) :
    (db.chunkRowsOf blob).Pairwise fun a b => a.seq < b.seq := by
  refine (db.chunkRows_ascending.filter _).imp_of_mem ?_
  intro a b ha hb hbefore
  rcases hbefore with hblob | ⟨-, hseq⟩
  · rw [(mem_chunkRowsOf.mp ha).2, (mem_chunkRowsOf.mp hb).2] at hblob
    omega
  · exact hseq

/-- `db'` is `db` with chunks added at the end of a blob. -/
structure Copied (blob : Int) (added : List ChunkRow) (db db' : Db) : Prop where
  own : db'.chunkRowsOf blob = db.chunkRowsOf blob ++ added
  others : ∀ other, other ≠ blob → db'.chunkRowsOf other = db.chunkRowsOf other
  there : db.chunks.isSome → db'.chunks.isSome
  frame : db' = { db with chunks := db'.chunks }

theorem Copied.nothing (blob : Int) (db : Db) : Copied blob [] db db :=
  ⟨(List.append_nil _).symm, fun _ _ => rfl, id, rfl⟩

theorem Copied.trans {a b : List ChunkRow} (h₁ : Copied blob a db mid)
    (h₂ : Copied blob b mid db') : Copied blob (a ++ b) db db' where
  own := by rw [h₂.own, h₁.own, List.append_assoc]
  others other hne := (h₂.others other hne).trans (h₁.others other hne)
  there := h₂.there ∘ h₁.there
  frame := by rw [h₂.frame, h₁.frame]

theorem Copied.whole {added : List ChunkRow} (h : Copied blob added db db') (hw : db.Whole) :
    db'.Whole := by
  have hthere := h.there hw.chunks
  rw [h.frame]
  exact ⟨hw.globals, hw.blobs, hthere, hw.entries, hw.refused⟩

theorem Copied.blobIds_eq {added : List ChunkRow} (h : Copied blob added db db') :
    db'.blobIds = db.blobIds := by
  rw [h.frame]
  rfl

theorem Copied.entryRows_eq {added : List ChunkRow} (h : Copied blob added db db') :
    db'.entryRows = db.entryRows := by
  rw [h.frame]
  rfl

/-- A chunk numbered after all others of its blob goes to the end of the blob. -/
theorem ChunkAdded.copied {row : ChunkRow} (h : ChunkAdded row db db')
    (hbelow : ∀ c ∈ db.chunkRowsOf row.blob, c.seq < row.seq) :
    Copied row.blob [row] db db' where
  own := by
    rw [chunkRowsOf, h.rows, Table.filter_place_of_pos db.chunkRows_ascending (by simp),
      Table.place_last]
    · rfl
    · intro c hc
      exact Or.inr ⟨(mem_chunkRowsOf.mp hc).2, hbelow c hc⟩
  others other hne := by
    rw [chunkRowsOf, h.rows, Table.filter_place_of_neg (by simpa using hne.symm)]
    rfl
  there _ := h.there
  frame := h.frame

end Db

namespace Tier

open Db

variable {path : String} {blob seq : Int} {remaining : Nat} {content : Bytes} {now fin : Progress}

/-- The bytes that are copied, cut into pieces: the first piece, then the rest. -/
theorem pieces_take (hpos : 0 < remaining) (hlen : min remaining chunkSize ≤ content.length) :
    pieces blob seq (content.take remaining) =
      { blob, seq, data := content.take (min remaining chunkSize) } ::
        pieces blob (seq + 1)
          ((content.drop (min remaining chunkSize)).take (remaining - chunkSize)) := by
  have hne : content.take remaining ≠ [] := by
    intro hnil
    rcases List.take_eq_nil_iff.mp hnil with h | h
    · omega
    · simp only [h, chunkSize, List.length_nil] at hlen
      omega
  have hrest : (content.drop chunkSize).take (remaining - chunkSize) =
      (content.drop (min remaining chunkSize)).take (remaining - chunkSize) := by
    by_cases h : remaining ≤ chunkSize
    · rw [Nat.sub_eq_zero_of_le h, List.take_zero, List.take_zero]
    · rw [Nat.min_eq_right (by omega)]
  rw [pieces_of_ne hne, List.take_take, List.drop_take, Nat.min_comm chunkSize, hrest]

/-- The chunk after one numbered `seq` may be numbered `seq + 1`. -/
theorem seq_lt_of_copied {db db' : Db} {data : Bytes}
    (hbelow : ∀ c ∈ db.chunkRowsOf blob, c.seq < seq)
    (h : Copied blob [⟨blob, seq, data⟩] db db') :
    ∀ c ∈ db'.chunkRowsOf blob, c.seq < seq + 1 := by
  intro c hc
  rw [h.own] at hc
  rcases List.mem_append.mp hc with hc | hc
  · have := hbelow c hc
    omega
  · rw [List.mem_singleton.mp hc]
    exact Int.lt_succ seq

theorem copyIn_zero : copyIn path blob seq 0 content now = .ok () now := by
  rw [copyIn, if_pos rfl]
  rfl

/-- What copies something has added the first piece before it went on with the rest. -/
theorem copyIn_first (h : copyIn path blob seq remaining content now = .ok () fin)
    (hpos : 0 < remaining) :
    min remaining chunkSize ≤ content.length ∧
      ∃ db, ChunkAdded ⟨blob, seq, content.take (min remaining chunkSize)⟩ now.db db ∧
        copyIn path blob (seq + 1) (remaining - chunkSize)
          (content.drop (min remaining chunkSize)) { now with db } = .ok () fin := by
  rw [copyIn, if_neg (by omega)] at h
  simp only at h
  split at h
  · simp at h
  · rename_i hlong
    simp only [Work.bind_ok, Work.change_ok_iff, appendChunk, except_bind_eq_ok,
      answered_eq_ok] at h
    obtain ⟨_, mid, ⟨db, ⟨_, hinsert, ⟨⟩⟩, rfl⟩, hrest⟩ := h
    rw [List.length_take] at hlong
    exact ⟨by omega, db, insertChunk_added hinsert, hrest⟩

/-- Copying in reads as many bytes as the file reports, and touches chunks only. -/
theorem copyIn_frame (h : copyIn path blob seq remaining content now = .ok () fin) :
    remaining ≤ content.length ∧ fin.db = { now.db with chunks := fin.db.chunks } := by
  induction remaining using Nat.strongRecOn generalizing seq content now with
  | ind remaining ih =>
      rcases Nat.eq_zero_or_pos remaining with rfl | hpos
      · cases copyIn_zero.symm.trans h
        exact ⟨Nat.zero_le _, rfl⟩
      · obtain ⟨hlen, db, hadded, hrest⟩ := copyIn_first h hpos
        obtain ⟨hfits, hframe⟩ := ih (remaining - chunkSize) (by simp only [chunkSize]; omega) hrest
        rw [List.length_drop] at hfits
        refine ⟨by omega, ?_⟩
        rw [hframe, hadded.frame]

/-- **Copying in adds the pieces of what is copied**, and nothing else. -/
theorem copyIn_ok (h : copyIn path blob seq remaining content now = .ok () fin)
    (hbelow : ∀ c ∈ now.db.chunkRowsOf blob, c.seq < seq) :
    Copied blob (pieces blob seq (content.take remaining)) now.db fin.db := by
  induction remaining using Nat.strongRecOn generalizing seq content now with
  | ind remaining ih =>
      rcases Nat.eq_zero_or_pos remaining with rfl | hpos
      · cases copyIn_zero.symm.trans h
        rw [List.take_zero, pieces_nil]
        exact Copied.nothing _ _
      · obtain ⟨hlen, db, hadded, hrest⟩ := copyIn_first h hpos
        have hfirst := hadded.copied hbelow
        have hmore := ih (remaining - chunkSize) (by simp only [chunkSize]; omega)
          hrest (seq_lt_of_copied hbelow hfirst)
        rw [pieces_take hpos hlen]
        exact hfirst.trans hmore

/-- While the file goes on, copying in adds one chunk and goes on with the rest. -/
theorem copyIn_step (hw : now.db.Whole) (hblob : blob ∈ now.db.blobIds)
    (hbelow : ∀ c ∈ now.db.chunkRowsOf blob, c.seq < seq) (hpos : 0 < remaining)
    (hlen : min remaining chunkSize ≤ content.length) :
    ∃ db, Copied blob [⟨blob, seq, content.take (min remaining chunkSize)⟩] now.db db ∧
      copyIn path blob seq remaining content now =
        copyIn path blob (seq + 1) (remaining - chunkSize)
          (content.drop (min remaining chunkSize)) { now with db } := by
  have hfresh : ∀ c ∈ now.db.chunkRows, c.blob = blob → c.seq ≠ seq := by
    intro c hc hcb
    have := hbelow c (mem_chunkRowsOf.mpr ⟨hc, hcb⟩)
    omega
  obtain ⟨db, hinsert⟩ :=
    exists_insertChunk (content.take (min remaining chunkSize)) hw hblob hfresh
  refine ⟨db, (insertChunk_added hinsert).copied hbelow, ?_⟩
  have hpiece : ¬ (content.take (min remaining chunkSize)).length < min remaining chunkSize := by
    rw [List.length_take]
    omega
  have happend : now.db.appendChunk blob seq (content.take (min remaining chunkSize)) =
      .ok ((), db) := by
    simp only [appendChunk, hinsert, answered, bind, Except.bind]
  rw [copyIn, if_neg (by omega)]
  simp only [if_neg hpiece]
  exact Work.bind_of_ok (Work.change_ok happend)

/-- Copying in stops at the first piece that the file does not fill. -/
theorem copyIn_stop (hshort : content.length < min remaining chunkSize) :
    copyIn path blob seq remaining content now = .error (.truncatedInput path) now := by
  have hpiece : (content.take (min remaining chunkSize)).length < min remaining chunkSize := by
    rw [List.length_take]
    omega
  rw [copyIn, if_neg (by omega)]
  simp only [if_pos hpiece]
  rfl

/-- Copying in succeeds when the file is as long as it says, and reports nothing. -/
theorem exists_copyIn (hw : now.db.Whole) (hblob : blob ∈ now.db.blobIds)
    (hbelow : ∀ c ∈ now.db.chunkRowsOf blob, c.seq < seq) (hlen : remaining ≤ content.length) :
    ∃ fin, copyIn path blob seq remaining content now = .ok () fin ∧ fin.log = now.log := by
  induction remaining using Nat.strongRecOn generalizing seq content now with
  | ind remaining ih =>
      rcases Nat.eq_zero_or_pos remaining with rfl | hpos
      · exact ⟨now, copyIn_zero, rfl⟩
      · have hpiece : min remaining chunkSize ≤ content.length := by omega
        obtain ⟨db, hfirst, hstep⟩ := copyIn_step hw hblob hbelow hpos hpiece
        have hblob' : blob ∈ db.blobIds := hfirst.blobIds_eq ▸ hblob
        have hrest : remaining - chunkSize ≤
            (content.drop (min remaining chunkSize)).length := by
          rw [List.length_drop]
          omega
        rw [hstep]
        exact @ih (remaining - chunkSize) (by simp only [chunkSize]; omega) _ _ { now with db }
          (hfirst.whole hw) hblob' (seq_lt_of_copied hbelow hfirst) hrest

/-- Copying in fails when the file ends too early, with the chunks in place that the
file has filled. -/
theorem copyIn_short (hw : now.db.Whole) (hblob : blob ∈ now.db.blobIds)
    (hbelow : ∀ c ∈ now.db.chunkRowsOf blob, c.seq < seq) (hlen : content.length < remaining) :
    ∃ fin, copyIn path blob seq remaining content now = .error (.truncatedInput path) fin ∧
      fin.log = now.log ∧
      Copied blob (pieces blob seq (content.take (content.length / chunkSize * chunkSize)))
        now.db fin.db := by
  induction remaining using Nat.strongRecOn generalizing seq content now with
  | ind remaining ih =>
      by_cases hshort : content.length < min remaining chunkSize
      · refine ⟨now, copyIn_stop hshort, rfl, ?_⟩
        rw [Nat.div_eq_of_lt (by omega), Nat.zero_mul, List.take_zero, pieces_nil]
        exact Copied.nothing _ _
      · -- What is left of the file is still shorter than what is left to copy.
        have hfull : min remaining chunkSize = chunkSize := by omega
        have hmore : chunkSize ≤ content.length := by omega
        obtain ⟨db, hfirst, hstep⟩ := copyIn_step hw hblob hbelow
          (by omega) (Nat.not_lt.mp hshort)
        rw [hfull] at hfirst hstep
        have hblob' : blob ∈ db.blobIds := hfirst.blobIds_eq ▸ hblob
        have hless : (content.drop chunkSize).length < remaining - chunkSize := by
          rw [List.length_drop]
          omega
        obtain ⟨fin, hfin, hlog, hrest⟩ :=
          @ih (remaining - chunkSize) (by simp only [chunkSize]; omega) _ _ { now with db }
            (hfirst.whole hw) hblob' (seq_lt_of_copied hbelow hfirst) hless
        refine ⟨fin, hstep.trans hfin, hlog, ?_⟩
        have hwhole : min (content.length / chunkSize * chunkSize) chunkSize = chunkSize := by
          simp only [chunkSize] at hmore ⊢
          omega
        have hleft : content.length / chunkSize * chunkSize - chunkSize =
            (content.length - chunkSize) / chunkSize * chunkSize := by
          simp only [chunkSize]
          omega
        rw [pieces_take (by simp only [chunkSize] at hmore ⊢; omega) (by omega), hwhole, hleft,
          ← List.length_drop]
        exact hfirst.trans hrest

end Tier

end BlobCache
