import BlobCache.Proofs.Lookup

/-!
# Copying in and extracting

Copying in and extracting are inverse to each other (`Tier.copyIn_extract`):
into a blob without chunks any number of bytes can be copied that the file holds,
and what is extracted afterwards are these bytes.  The two loops meet in the rows
of the blob, which copying in makes the pieces of the payload and extracting puts
together in the order of their numbers.
-/

namespace BlobCache

namespace Tier

open Db

variable {now : Progress} {blob : Int}

/-- Copying into a blob without chunks goes through if the file has the bytes, and
the blob then consists of their pieces; if not, it fails.  Other blobs keep their
chunks. -/
theorem copyIn_from_start (hw : now.db.Whole) (hblob : blob ∈ now.db.blobIds)
    (hempty : now.db.chunkRowsOf blob = []) (path : String) (n : Nat) (content : Bytes) :
    ∃ fin added, copyIn path blob 0 n content now =
        (if n ≤ content.length then .ok () fin else .error (.truncatedInput path) fin) ∧
      fin.log = now.log ∧ Copied blob added now.db fin.db ∧
      (n ≤ content.length → fin.db.chunkRowsOf blob = pieces blob 0 (content.take n)) := by
  have hbelow : ∀ c ∈ now.db.chunkRowsOf blob, c.seq < 0 := by
    rw [hempty]
    exact fun _ hc => nomatch hc
  by_cases hlen : n ≤ content.length
  · obtain ⟨fin, hfin, hlog⟩ := exists_copyIn hw hblob hbelow hlen
    have hcopied := copyIn_ok hfin hbelow
    refine ⟨fin, _, by rw [if_pos hlen, hfin], hlog, hcopied, fun _ => ?_⟩
    rw [hcopied.own, hempty, List.nil_append]
  · obtain ⟨fin, hfin, hlog, hcopied⟩ :=
      copyIn_short hw hblob hbelow (Nat.not_le.mp hlen)
    exact ⟨fin, _, by rw [if_neg hlen, hfin], hlog, hcopied, fun h => absurd h hlen⟩

/-- **Copying in and extracting are inverse.**  Of any file, any number `n` of bytes can
be copied into a blob without chunks that the file has; with fewer bytes the file is
said to be truncated.  Once they are copied, the chunks of the blob are numbered from
zero, none is empty, all but the last are full, there are as many as it takes, and an
entry of this size over the blob is extracted as the first `n` bytes of the file.
In either case nothing has changed but the chunks of this blob. -/
theorem copyIn_extract (hw : now.db.Whole) (hblob : blob ∈ now.db.blobIds)
    (hempty : now.db.chunkRowsOf blob = []) (path : String) (n : Nat) (content : Bytes) :
    ∃ fin, copyIn path blob 0 n content now =
        (if n ≤ content.length then .ok () fin else .error (.truncatedInput path) fin) ∧
      fin = { now with db := { now.db with chunks := fin.db.chunks } } ∧
      (∀ other, other ≠ blob → fin.db.chunkRowsOf other = now.db.chunkRowsOf other) ∧
      (n ≤ content.length →
        Laid n (fin.db.chunkRowsOf blob) ∧
        (fin.db.chunkRowsOf blob).length = (n + (chunkSize - 1)) / chunkSize ∧
        fin.db.blobChunks blob = .ok ((fin.db.chunkRowsOf blob).map (·.data)) ∧
        ((fin.db.chunkRowsOf blob).map (·.data)).flatten = content.take n ∧
        ∀ directory entry, entry.blob = blob → entry.size = n →
          extract (some directory) entry fin = .ok ⟨directory, content.take n⟩ fin) := by
  obtain ⟨fin, added, hdone, hlog, hcopied, hrows⟩ :=
    copyIn_from_start hw hblob hempty path n content
  have hframe : fin = { now with db := { now.db with chunks := fin.db.chunks } } := by
    rw [← hcopied.frame, ← hlog]
  refine ⟨fin, hdone, hframe, hcopied.others, fun hlen => ?_⟩
  have htake : (content.take n).length = n := List.length_take_of_le hlen
  have hflat : (fin.db.chunksOf blob).flatten = content.take n := by
    rw [chunksOf_eq, hrows hlen, flatten_pieces]
  have hchunks : fin.db.chunks.isSome := hcopied.there hw.chunks
  refine ⟨?_, ?_, blobChunks_eq_ok.mpr ⟨hchunks, rfl⟩, hflat, ?_⟩
  · have hlaid := laid_pieces blob (content.take n)
    rwa [htake, ← hrows hlen] at hlaid
  · rw [hrows hlen, length_pieces, htake]
  · intro directory entry hentry hsize
    rw [extract_eq directory entry hchunks, hentry, hflat, if_pos (htake.trans hsize.symm)]

/-- One byte more than a chunk holds takes two chunks; one more than the file has are
not to be had.  The blob that has a chunk already keeps it. -/
theorem copyIn_extract_past_chunk :
    let content : Bytes := List.replicate chunkSize 7 ++ [8, 9]
    let now : Progress := { db := { Db.empty with
      globals := some [.integer 1]
      blobs := some ⟨[⟨1, 1⟩, ⟨2, 16385⟩], by decide, by decide⟩
      chunks := some ⟨[⟨1, 0, [5]⟩], by decide, by decide⟩
      entries := some ⟨[⟨1, "a", 1, 1⟩], by decide, by decide⟩ } }
    (now.db.Whole ∧ 2 ∈ now.db.blobIds ∧ now.db.chunkRowsOf 2 = []) ∧
    (∃ fin, copyIn "file" 2 0 16385 content now = .ok () fin ∧
      (fin.db.chunkRowsOf 2).length = 2 ∧ fin.db.chunkRowsOf 1 = [⟨1, 0, [5]⟩] ∧
      extract (some "out") ⟨2, "b", 16385, 2⟩ fin =
        .ok ⟨"out", List.replicate chunkSize 7 ++ [8]⟩ fin) ∧
    ∃ fin, copyIn "file" 2 0 16387 content now = .error (.truncatedInput "file") fin ∧
      fin.db.chunkRowsOf 1 = [⟨1, 0, [5]⟩] := by
  intro content now
  have hw : now.db.Whole := ⟨rfl, rfl, rfl, rfl, rfl⟩
  have hblob : 2 ∈ now.db.blobIds := by decide
  have hempty : now.db.chunkRowsOf 2 = [] := by decide
  have hlength : content.length = 16386 := by
    rw [List.length_append, List.length_replicate]
    rfl
  have htake : content.take 16385 = List.replicate chunkSize 7 ++ [8] := by
    rw [List.take_append, List.length_replicate, List.take_of_length_le]
    · rfl
    · rw [List.length_replicate]
      decide
  refine ⟨⟨hw, hblob, hempty⟩, ?_, ?_⟩
  · obtain ⟨fin, hdone, -, hothers, hread⟩ :=
      copyIn_extract hw hblob hempty "file" 16385 content
    rw [if_pos (by omega)] at hdone
    obtain ⟨-, hcount, -, -, hextract⟩ := hread (by omega)
    refine ⟨fin, hdone, hcount, hothers 1 (by decide), ?_⟩
    rw [hextract "out" ⟨2, "b", 16385, 2⟩ rfl rfl, htake]
  · obtain ⟨fin, hdone, -, hothers, -⟩ :=
      copyIn_extract hw hblob hempty "file" 16387 content
    rw [if_neg (by omega)] at hdone
    exact ⟨fin, hdone, hothers 1 (by decide)⟩

end Tier

end BlobCache
