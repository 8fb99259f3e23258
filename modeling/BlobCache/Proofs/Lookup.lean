import BlobCache.Proofs.Contents

/-!
# Looking a key up

Nothing is assumed of what is stored: sizes may be negative, chunks may be
missing or superfluous and bear any numbers, the totals may be wrong.  A get then
ends in one of five ways, and there is one lemma for each: the key is not there
(`Tier.tryGet_miss`), the size of its entry cannot be read
(`Tier.tryGet_of_negative`), no id is left to move the entry to
(`Tier.tryGet_of_last`), the chunks are not as long as the entry says
(`Tier.tryGet_of_length`), or the payload is found (`Tier.tryGet_hit`).  The
earlier cause wins, and only the last way changes the database
(`Tier.tryGet_answers`).
-/

namespace BlobCache

namespace Db

variable {db : Db} {key : String} {e : EntryRow}

theorem findEntry_of_entries (h : db.entries.isSome) (key : String) :
    db.findEntry key = match db.entryRows.find? (·.key = key) with
      | none => .ok none
      | some row => some <$> row.entry := by
  obtain ⟨entries, hentries⟩ := Option.isSome_iff_exists.mp h
  simp only [findEntry, entryRows, hentries, Option.map_some, Option.getD_some]
  rfl

theorem findEntry_of_readable (h : db.entries.isSome)
    (hfind : db.entryRows.find? (·.key = key) = some e) (hsize : 0 ≤ e.size) :
    db.findEntry key = .ok (some ⟨e.id, e.key, e.size.toNat, e.blob⟩) := by
  rw [findEntry_of_entries h, hfind]
  simp only [EntryRow.entry_eq_ok.mpr ⟨hsize, rfl⟩]
  rfl

theorem findEntry_of_negative (h : db.entries.isSome)
    (hfind : db.entryRows.find? (·.key = key) = some e) (hsize : e.size < 0) :
    db.findEntry key = .error (.invalidData "entry size") := by
  rw [findEntry_of_entries h, hfind]
  simp only [EntryRow.entry_eq_error hsize]
  rfl

/-- Ids that 64 bits can hold leave room above them unless the largest is in use. -/
theorem id_lt_largest (hids : ∀ x ∈ db.entryRows, Fits x.id)
    (hlargest : largest ∉ db.entryIds) : ∀ x ∈ db.entryRows, x.id < largest := by
  intro x hx
  refine lt_of_le_of_ne (hids x hx).2 ?_
  intro heq
  exact hlargest (mem_entryIds.mpr ⟨x, hx, heq⟩)

end Db

namespace Tier

variable {tier : Tier} {key : String} {db : Db} {e : EntryRow}

/-- What is extracted are the chunks of the blob, if they are as long as the entry
says. -/
theorem extract_eq {now : Progress} (directory : String) (entry : Entry)
    (hchunks : now.db.chunks.isSome) :
    extract (some directory) entry now =
      if (now.db.chunksOf entry.blob).flatten.length = entry.size then
        .ok ⟨directory, (now.db.chunksOf entry.blob).flatten⟩ now
      else .error (.corruption "stored payload length doesn't match its entry") now := by
  have hread : now.db.blobChunks entry.blob = .ok (now.db.chunksOf entry.blob) :=
    blobChunks_eq_ok.mpr ⟨hchunks, rfl⟩
  simp only [extract]
  rw [Work.bind_of_ok (Work.query_ok hread)]
  by_cases hlength : (now.db.chunksOf entry.blob).flatten.length = entry.size
  · rw [if_pos hlength, if_neg (not_not.mpr hlength)]
    rfl
  · rw [if_neg hlength, if_pos hlength]
    rfl

/-- A get that finds an entry goes on to move it. -/
theorem readEntry_of_found (directory : Option String) (h : db.entries.isSome)
    (hfind : db.entryRows.find? (·.key = key) = some e) (hsize : 0 ≤ e.size) :
    tier.readEntry directory key { db } = (do
      let _ ← Work.change .store (Db.promote e.id)
      let found ← extract directory ⟨e.id, e.key, e.size.toNat, e.blob⟩
      Work.report (.hit tier.name key e.size.toNat)
      pure (some found) : Work CacheError (Option Extracted)) { db } := by
  rw [readEntry, Work.bind_of_ok (Work.query_ok (Db.findEntry_of_readable h hfind hsize))]

/-- Once the entry has moved, the length of the payload decides. -/
theorem readEntry_of_moved (directory : String) (hw : db.Whole)
    (hids : ∀ x ∈ db.entryRows, x.id < largest)
    (hfind : db.entryRows.find? (·.key = key) = some e) (hsize : 0 ≤ e.size) :
    ∃ top moved, Db.EntryMoved e top db moved ∧
      tier.readEntry (some directory) key { db } =
        if ((db.payload e).length : Int) = e.size then
          .ok (some ⟨directory, db.payload e⟩) ⟨moved, [.hit tier.name key e.size.toNat]⟩
        else
          .error (.corruption "stored payload length doesn't match its entry") { db := moved } := by
  have he : e ∈ db.entryRows := List.mem_of_find?_eq_some hfind
  obtain ⟨top, moved, hpromote⟩ := Db.exists_promoteEntry hw he hids
  obtain ⟨x, hid, hmoved⟩ := Db.promoteEntry_moved hpromote
  obtain rfl : x = e := Db.entry_eq_of_id hmoved.mem he hid
  refine ⟨top, moved, hmoved, ?_⟩
  have hchange : db.promote x.id = .ok (top, moved) := by
    simp [Db.promote, hpromote, answered, bind, Except.bind]
  have hextract : extract (some directory) ⟨x.id, x.key, x.size.toNat, x.blob⟩ ⟨moved, []⟩ = _ :=
    extract_eq directory _ (hmoved.whole hw).chunks
  have hpayload : (moved.chunksOf x.blob).flatten = db.payload x := hmoved.payload_eq x
  rw [hpayload] at hextract
  rw [readEntry_of_found (some directory) hw.entries hfind hsize,
    Work.bind_of_ok (Work.change_ok hchange)]
  by_cases hlength : ((db.payload x).length : Int) = x.size
  · rw [if_pos (by simp only; omega)] at hextract
    rw [if_pos hlength, Work.bind_of_ok hextract]
    rfl
  · rw [if_neg (by simp only; omega)] at hextract
    rw [if_neg hlength, Work.bind_of_error hextract]

/-! ## The ways a get can end -/

/-- A get whose key is not there changes nothing and says so. -/
theorem tryGet_miss {directory : Option String} (h : db.entries.isSome)
    (hopen : tier.isOpen = true) (hfind : db.entryRows.find? (·.key = key) = none) :
    tier.tryGet directory key db = ⟨.ok none, db, [.miss tier.name key]⟩ := by
  have hlook : db.findEntry key = .ok none := by
    rw [Db.findEntry_of_entries h, hfind]
  have hwork : tier.readEntry directory key { db } =
      .ok none { db, log := [.miss tier.name key] } := by
    rw [readEntry, Work.bind_of_ok (Work.query_ok hlook)]
    rfl
  simp only [tryGet, hopen, if_true]
  exact transact_ok hwork

/-- A get that fails on its way changes nothing. -/
theorem tryGet_of_error {directory : Option String} {cause : CacheError} {fin : Progress}
    (hopen : tier.isOpen = true) (h : tier.readEntry directory key { db } = .error cause fin) :
    tier.tryGet directory key db = ⟨.error cause, db, fin.log⟩ := by
  simp only [tryGet, hopen, if_true]
  exact transact_of_error h

/-- A size below zero is not read. -/
theorem tryGet_of_negative (directory : Option String) (hopen : tier.isOpen = true)
    (h : db.entries.isSome) (hfind : db.entryRows.find? (·.key = key) = some e)
    (hsize : e.size < 0) :
    tier.tryGet directory key db = ⟨.error (.store (.invalidData "entry size")), db, []⟩ := by
  have hwork : tier.readEntry directory key { db } =
      .error (.store (.invalidData "entry size")) { db } := by
    rw [readEntry,
      Work.bind_of_error (Work.query_error (Db.findEntry_of_negative h hfind hsize))]
  exact tryGet_of_error hopen hwork

/-- No entry can be moved past the largest id. -/
theorem tryGet_of_last (directory : Option String) (hopen : tier.isOpen = true)
    (h : db.entries.isSome) (hfind : db.entryRows.find? (·.key = key) = some e)
    (hsize : 0 ≤ e.size) (hlargest : largest ∈ db.entryIds) :
    tier.tryGet directory key db = ⟨.error (.store .database), db, []⟩ := by
  have hpromote : db.promote e.id = .error .database := by
    simp [Db.promote, Db.promoteEntry_eq_none (List.mem_of_find?_eq_some hfind) hlargest,
      answered, bind, Except.bind]
  have hwork : tier.readEntry directory key { db } = .error (.store .database) { db } := by
    rw [readEntry_of_found directory h hfind hsize,
      Work.bind_of_error (Work.change_error hpromote)]
  exact tryGet_of_error hopen hwork

/-- A payload of the wrong length is not handed out, and the move of its entry is
undone. -/
theorem tryGet_of_length (directory : String) (hopen : tier.isOpen = true) (hw : db.Whole)
    (hids : ∀ x ∈ db.entryRows, x.id < largest)
    (hfind : db.entryRows.find? (·.key = key) = some e) (hsize : 0 ≤ e.size)
    (hlength : ((db.payload e).length : Int) ≠ e.size) :
    tier.tryGet (some directory) key db =
      ⟨.error (.corruption "stored payload length doesn't match its entry"), db, []⟩ := by
  obtain ⟨top, moved, -, hwork⟩ :=
    readEntry_of_moved directory hw hids hfind hsize
  rw [if_neg hlength] at hwork
  exact tryGet_of_error hopen hwork

/-- A get whose key is there finds its payload and makes it the last used, if there is
an id left. -/
theorem tryGet_hit (directory : String) (hopen : tier.isOpen = true) (hw : db.Whole)
    (hids : ∀ x ∈ db.entryRows, x.id < largest)
    (hfind : db.entryRows.find? (·.key = key) = some e)
    (hlength : ((db.payload e).length : Int) = e.size) :
    (tier.tryGet (some directory) key db).result = .ok (some ⟨directory, db.payload e⟩) ∧
      ∃ top, Db.EntryMoved e top db (tier.tryGet (some directory) key db).db := by
  obtain ⟨top, moved, hmoved, hwork⟩ :=
    readEntry_of_moved directory hw hids hfind (by omega)
  rw [if_pos hlength] at hwork
  have hdone : tier.tryGet (some directory) key db =
      ⟨.ok (some ⟨directory, db.payload e⟩), moved, [.hit tier.name key e.size.toNat]⟩ := by
    simp only [tryGet, hopen, if_true]
    exact transact_ok hwork
  rw [hdone]
  exact ⟨rfl, top, hmoved⟩

/-- How a get of a key ends whose entry is `e`: of the causes to fail, the first that
applies wins; without one, the chunks of the blob are handed out in the order of their
numbers, the entry moves to the end of the order of use, and nothing else changes. -/
structure Answered (directory : String) (e : EntryRow) (db : Db)
    (got : Outcome CacheError (Option Extracted)) : Prop where
  negative : got.result = .error (.store (.invalidData "entry size")) ↔ e.size < 0
  exhausted : got.result = .error (.store .database) ↔ 0 ≤ e.size ∧ largest ∈ db.entryIds
  corrupt : got.result = .error (.corruption "stored payload length doesn't match its entry") ↔
    0 ≤ e.size ∧ largest ∉ db.entryIds ∧
      ((db.chunkRowsOf e.blob).map fun c => (c.data.length : Int)).sum ≠ e.size
  served : 0 ≤ e.size → largest ∉ db.entryIds →
    ((db.chunkRowsOf e.blob).map fun c => (c.data.length : Int)).sum = e.size →
    got.result = .ok (some ⟨directory, ((db.chunkRowsOf e.blob).map (·.data)).flatten⟩) ∧
      ∃ top, Db.EntryMoved e top db got.db
  ordered : (db.chunkRowsOf e.blob).Pairwise fun a b => a.seq < b.seq

/-- Whatever is stored under a key, it is clear how a get ends, and unless it hands out
a payload it changes nothing. -/
theorem answered_of_found (directory : String) (hopen : tier.isOpen = true) (hw : db.Whole)
    (hids : ∀ x ∈ db.entryRows, Fits x.id)
    (hfind : db.entryRows.find? (·.key = key) = some e) :
    Answered directory e db (tier.tryGet (some directory) key db) ∧
      ((tier.tryGet (some directory) key db).result ≠ .ok none) ∧
      ((∀ found, (tier.tryGet (some directory) key db).result ≠ .ok (some found)) →
        (tier.tryGet (some directory) key db).db = db) := by
  have hordered := db.chunkRowsOf_ascending e.blob
  have hsum : ((db.payload e).length : Int) =
      ((db.chunkRowsOf e.blob).map fun c => (c.data.length : Int)).sum := by
    rw [Db.payload, List.length_flatten, Db.chunksOf_eq, List.map_map, Nat.cast_list_sum,
      List.map_map]
    rfl
  by_cases hsize : e.size < 0
  · rw [tryGet_of_negative (some directory) hopen hw.entries hfind hsize]
    refine ⟨⟨?_, ?_, ?_, ?_, hordered⟩, ?_, ?_⟩ <;> simp [hsize, not_le.mpr hsize]
  rw [not_lt] at hsize
  by_cases hlargest : largest ∈ db.entryIds
  · rw [tryGet_of_last (some directory) hopen hw.entries hfind hsize hlargest]
    refine ⟨⟨?_, ?_, ?_, ?_, hordered⟩, ?_, ?_⟩ <;> simp [hsize, hlargest]
  have hlt := Db.id_lt_largest hids hlargest
  by_cases hlength : ((db.payload e).length : Int) = e.size
  · obtain ⟨hresult, hmoved⟩ := tryGet_hit directory hopen hw hlt hfind hlength
    rw [hsum] at hlength
    refine ⟨⟨?_, ?_, ?_, fun _ _ _ => ⟨hresult, hmoved⟩, hordered⟩, ?_, ?_⟩ <;>
      simp [hresult, hsize, hlargest, hlength]
  · rw [tryGet_of_length directory hopen hw hlt hfind hsize hlength]
    rw [hsum] at hlength
    refine ⟨⟨?_, ?_, ?_, ?_, hordered⟩, ?_, ?_⟩ <;> simp [hsize, hlargest, hlength]

/-- **What a get answers**, whatever is stored: nothing exactly if no entry has the key,
and otherwise what becomes of the entry that has it.  Unless a payload is handed out,
the database is as before. -/
theorem tryGet_answers (hopen : tier.isOpen = true) (hw : db.Whole)
    (hids : ∀ x ∈ db.entryRows, Fits x.id) (directory key : String) :
    ((tier.tryGet (some directory) key db).result = .ok none ↔
      ∀ e ∈ db.entryRows, e.key ≠ key) ∧
    (∀ e ∈ db.entryRows, e.key = key →
      Answered directory e db (tier.tryGet (some directory) key db)) ∧
    ((∀ found, (tier.tryGet (some directory) key db).result ≠ .ok (some found)) →
      (tier.tryGet (some directory) key db).db = db) := by
  cases hfind : db.entryRows.find? (·.key = key) with
  | none =>
      have habsent : ∀ e ∈ db.entryRows, e.key ≠ key := by
        intro e he
        simpa using List.find?_eq_none.mp hfind e he
      rw [tryGet_miss hw.entries hopen hfind]
      exact ⟨⟨fun _ => habsent, fun _ => rfl⟩, fun e he hkey => absurd hkey (habsent e he),
        fun _ => rfl⟩
  | some e =>
      have he : e ∈ db.entryRows := List.mem_of_find?_eq_some hfind
      have hkey : e.key = key := by simpa using List.find?_some hfind
      obtain ⟨hanswered, hsome, hkept⟩ := answered_of_found directory hopen hw hids hfind
      refine ⟨⟨fun h => absurd h hsome, fun h => absurd hkey (h e he)⟩, ?_, hkept⟩
      intro x hx hxkey
      rw [Db.entry_eq_of_key hx he (hxkey.trans hkey.symm)]
      exact hanswered

/-- Three entries share a blob whose chunks are numbered -5 and 9.  The one that has
their length is handed out and comes last, the one that has not is corrupt, the one with
a size below zero cannot be read, and a fourth key is not there. -/
theorem tryGet_answers_shared_blob :
    let db : Db := { Db.empty with
      globals := some [.integer (-1)]
      blobs := some ⟨[⟨1, 7⟩], by simp, by simp⟩
      chunks := some ⟨[⟨1, -5, [7]⟩, ⟨1, 9, [8]⟩], by decide, by decide⟩
      entries := some ⟨[⟨-3, "a", 2, 1⟩, ⟨4, "b", 1, 1⟩, ⟨6, "c", -2, 1⟩], by decide, by decide⟩ }
    let tier : Tier := { location := .memory, budget := 4 }
    let got (key : String) := tier.tryGet (some "out") key db
    (tier.isOpen = true ∧ db.Whole ∧ ∀ x ∈ db.entryRows, Fits x.id) ∧
    (got "a").result = .ok (some ⟨"out", [7, 8]⟩) ∧
    (got "a").db.entryRows = [⟨4, "b", 1, 1⟩, ⟨6, "c", -2, 1⟩, ⟨7, "a", 2, 1⟩] ∧
    (got "b").result = .error (.corruption "stored payload length doesn't match its entry") ∧
    (got "c").result = .error (.store (.invalidData "entry size")) ∧
    (got "d").result = .ok none ∧ (got "d").db = db := by
  intro db tier got
  have hw : db.Whole := ⟨rfl, rfl, rfl, rfl, rfl⟩
  have hids : ∀ x ∈ db.entryRows, Fits x.id := by decide
  have hanswers (key : String) := @tryGet_answers tier db rfl hw hids "out" key
  have ha := (hanswers "a").2.1 ⟨-3, "a", 2, 1⟩ (by decide) rfl
  have hb := (hanswers "b").2.1 ⟨4, "b", 1, 1⟩ (by decide) rfl
  have hc := (hanswers "c").2.1 ⟨6, "c", -2, 1⟩ (by decide) rfl
  have hd : (got "d").result = .ok none := (hanswers "d").1.mpr (by decide)
  obtain ⟨hserved, top, hmoved⟩ := ha.served (by decide) (by decide) (by decide)
  obtain rfl : top = 7 := by
    obtain ⟨last, hlast, rfl⟩ := hmoved.next
    have habove : (6 : Int) < last + 1 := hmoved.above ⟨6, "c", -2, 1⟩ (by decide)
    have hcases : last = -3 ∨ last = 4 ∨ last = 6 := by
      simpa [db, Db.entryIds, Db.entryRows] using hlast
    omega
  exact ⟨⟨rfl, hw, hids⟩, hserved, hmoved.rows.trans (by decide),
    hb.corrupt.mpr ⟨by decide, by decide, by decide⟩, hc.negative.mpr (by decide), hd,
    (hanswers "d").2.2 fun found h => by cases hd.symm.trans h⟩

end Tier

end BlobCache
