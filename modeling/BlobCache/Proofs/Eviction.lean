import BlobCache.Cache.Tier
import BlobCache.Proofs.Deletion
import BlobCache.Proofs.Work

/-!
# Which entries are evicted

A put that needs room reads the entries from the least recently used one on and
stops at the first sufficient prefix; then everything up to the last entry read
is deleted by id.  The two agree (`Db.without_through`), whatever the ids and
the sizes are.

A scan can end in three ways (`Scanned`), and so can an eviction that has
something to free (`evict_cases`): it takes out the shortest prefix that frees
what is required, it comes to an entry that cannot be read, or all entries
together are not enough.  Which of them it is depends on whether some prefix can
free as much (`evict_shortest`); a total that is right always can
(`exists_evict`).
-/

namespace BlobCache

theorem satAdd_assoc (a b c : Nat) : satAdd (satAdd a b) c = satAdd a (b + c) := by
  simp only [satAdd]
  omega

/-- The bytes that a list of entries holds. -/
def weigh (rows : List EntryRow) : Nat := (rows.map (·.size.toNat)).sum

@[simp] theorem weigh_nil : weigh [] = 0 := rfl

@[simp] theorem weigh_cons (e : EntryRow) (rows : List EntryRow) :
    weigh (e :: rows) = e.size.toNat + weigh rows := by
  simp [weigh]

@[simp] theorem weigh_append (a b : List EntryRow) : weigh (a ++ b) = weigh a + weigh b := by
  simp [weigh]

/-- Entries of non-negative size are as heavy as their sizes say. -/
theorem sum_sizes_eq_weigh {rows : List EntryRow} (h : ∀ e ∈ rows, 0 ≤ e.size) :
    (rows.map (·.size)).sum = weigh rows := by
  induction rows with
  | nil => rfl
  | cons e rows ih =>
      have he := h e (by simp)
      rw [List.map_cons, List.sum_cons, ih fun x hx => h x (by simp [hx]), weigh_cons]
      omega

theorem EntryRow.entry_eq_ok {row : EntryRow} {entry : Entry} :
    row.entry = .ok entry ↔ 0 ≤ row.size ∧
      entry = { id := row.id, key := row.key, size := row.size.toNat, blob := row.blob } := by
  unfold EntryRow.entry readSize
  by_cases h : 0 ≤ row.size
  · simp [h, bind, Except.bind, eq_comm]
  · simp [h, bind, Except.bind]

theorem EntryRow.entry_eq_error {row : EntryRow} (h : row.size < 0) :
    row.entry = .error (.invalidData "entry size") := by
  simp [EntryRow.entry, readSize, Int.not_le.mpr h, bind, Except.bind]

namespace Tier

/-- What a scan has come to when it took some more entries. -/
def Scan.take (so : Scan) (taken : List EntryRow) : Scan where
  count := so.count + taken.length
  freed := satAdd so.freed (weigh taken)
  last? := (taken.getLast?.map (·.id)).or so.last?

theorem Scan.take_nil {so : Scan} (hso : so.freed ≤ wordMax) : so.take [] = so := by
  have hfreed : satAdd so.freed 0 = so.freed := Nat.min_eq_left hso
  simp [take, hfreed]

theorem Scan.take_cons (so : Scan) (e : EntryRow) (taken : List EntryRow) :
    so.take (e :: taken) = (so.take [e]).take taken := by
  simp only [take, satAdd_assoc, weigh_cons, weigh_nil, List.length_cons, List.length_nil,
    List.getLast?_cons]
  cases taken.getLast? <;> simp [Nat.add_comm, Nat.add_left_comm]

/-- The ways in which a scan can end: it has enough, it comes to an entry that cannot
be read, or it runs out of entries. -/
inductive Scanned (required : Nat) (so : Scan) (rows : List EntryRow) :
    Except StoreError Scan → Prop
  | enough (taken rest : List EntryRow) (hrows : rows = taken ++ rest)
      (hread : ∀ e ∈ taken, 0 ≤ e.size) (henough : required ≤ (so.take taken).freed)
      (hshort : ∀ k < taken.length, (so.take (taken.take k)).freed < required) :
      Scanned required so rows (.ok (so.take taken))
  | unreadable (front : List EntryRow) (e : EntryRow) (rest : List EntryRow)
      (hrows : rows = front ++ e :: rest) (hread : ∀ x ∈ front, 0 ≤ x.size) (hsize : e.size < 0)
      (hless : (so.take front).freed < required) :
      Scanned required so rows (.error (.invalidData "entry size"))
  | exhausted (hread : ∀ e ∈ rows, 0 ≤ e.size) (hless : (so.take rows).freed < required) :
      Scanned required so rows (.ok (so.take rows))

variable {required : Nat} {so : Scan} {rows : List EntryRow}

theorem Scanned.stop (hso : so.freed ≤ wordMax) (henough : required ≤ so.freed)
    (rows : List EntryRow) : Scanned required so rows (.ok so) := by
  have hnil := Scan.take_nil hso
  have h : Scanned required so rows (.ok (so.take [])) :=
    .enough [] rows rfl (by simp) (hnil.symm ▸ henough) (by simp)
  rwa [hnil] at h

/-- A scan that takes a first entry ends as it does from there. -/
theorem Scanned.cons {e : EntryRow} {outcome : Except StoreError Scan}
    (hso : so.freed ≤ wordMax) (hless : so.freed < required) (hsize : 0 ≤ e.size)
    (h : Scanned required (so.take [e]) rows outcome) :
    Scanned required so (e :: rows) outcome := by
  cases h with
  | enough taken rest hrows hread henough hshort =>
      rw [← Scan.take_cons] at henough ⊢
      refine .enough (e :: taken) rest (by rw [hrows]; rfl) ?_ henough ?_
      · simpa using ⟨hsize, hread⟩
      · intro k hk
        cases k with
        | zero => rwa [List.take_zero, Scan.take_nil hso]
        | succ k =>
            rw [List.take_succ_cons, Scan.take_cons]
            exact hshort k (by simpa using hk)
  | unreadable front x rest hrows hread hbad hless' =>
      rw [← Scan.take_cons] at hless'
      refine .unreadable (e :: front) x rest (by rw [hrows]; rfl) ?_ hbad hless'
      simpa using ⟨hsize, hread⟩
  | exhausted hread hless' =>
      rw [← Scan.take_cons] at hless' ⊢
      exact .exhausted (by simpa using ⟨hsize, hread⟩) hless'

/-- **A scan takes the shortest prefix that frees enough**, unless it meets an
unreadable entry before or runs out of entries. -/
theorem scanned_scan (rows : List EntryRow) (hso : so.freed ≤ wordMax) :
    Scanned required so rows (scan required so (rows.map EntryRow.entry)) := by
  induction rows generalizing so with
  | nil =>
      rw [List.map_nil, scan]
      by_cases henough : required ≤ so.freed
      · exact .stop hso henough []
      · have hnil := Scan.take_nil hso
        have h : Scanned required so [] (.ok (so.take [])) :=
          .exhausted (by simp) (hnil.symm ▸ Nat.not_le.mp henough)
        rwa [hnil] at h
  | cons e rows ih =>
      simp only [List.map_cons, scan]
      by_cases hless : so.freed < required
      · rw [if_pos hless]
        by_cases hsize : 0 ≤ e.size
        · have hnext : Scanned required (so.take [e]) rows _ := ih (Nat.min_le_right _ _)
          rw [EntryRow.entry_eq_ok.mpr ⟨hsize, rfl⟩]
          exact .cons hso hless hsize hnext
        · rw [EntryRow.entry_eq_error (Int.not_le.mp hsize)]
          exact .unreadable [] e rows rfl (by simp) (Int.not_le.mp hsize)
            ((Scan.take_nil hso).symm ▸ hless)
      · rw [if_neg hless]
        exact .stop hso (Nat.not_lt.mp hless) _

end Tier

namespace Db

variable {db : Db}

theorem evictionCandidates_of_entries (h : db.entries.isSome) :
    db.evictionCandidates = db.entryRows.map EntryRow.entry := by
  obtain ⟨entries, hentries⟩ := Option.isSome_iff_exists.mp h
  simp [evictionCandidates, entryRows, hentries]

/-- Of the rows up to `last`, those with an id up to its own are all. -/
theorem mem_taken_iff {front rest : List EntryRow} {last : EntryRow}
    (hrows : db.entryRows = front ++ [last] ++ rest) {e : EntryRow} (he : e ∈ db.entryRows) :
    e.id ≤ last.id ↔ e ∈ front ++ [last] := by
  have hasc := db.entryRows_ascending
  rw [hrows] at hasc he
  obtain ⟨hleft, -, hacross⟩ := List.pairwise_append.mp hasc
  constructor
  · intro hle
    rcases List.mem_append.mp he with he | he
    · exact he
    · have := hacross last (by simp) e he
      omega
  · intro hmem
    rcases List.mem_append.mp hmem with hmem | hmem
    · exact Int.le_of_lt ((List.pairwise_append.mp hleft).2.2 e hmem last (by simp))
    · obtain rfl := List.mem_singleton.mp hmem
      exact Int.le_refl _

/-- Deleting up to the last of some first entries deletes these. -/
theorem without_through {taken rest : List EntryRow} {last : EntryRow}
    (hrows : db.entryRows = taken ++ rest) (hlast : taken.getLast? = some last) :
    db.without (·.id ≤ last.id) = db.without (· ∈ taken) := by
  obtain ⟨front, rfl⟩ := List.getLast?_eq_some_iff.mp hlast
  apply without_congr
  intro x hx
  rw [Bool.eq_iff_iff, decide_eq_true_iff, decide_eq_true_iff]
  exact mem_taken_iff hrows hx

end Db

/-- `db'` is `db` without the shortest prefix `taken` of its entries that holds
`required` bytes. -/
structure Evicted (required : Nat) (taken rest : List EntryRow) (db db' : Db) : Prop where
  rows : db.entryRows = taken ++ rest
  readable : ∀ e ∈ taken, 0 ≤ e.size
  enough : required ≤ weigh taken
  shortest : ∀ k < taken.length, weigh (taken.take k) < required
  left : db' = db.without (· ∈ taken)

theorem Evicted.rows_left {required : Nat} {taken rest : List EntryRow} {db db' : Db}
    (h : Evicted required taken rest db db') : db'.entryRows = rest := by
  have hnodup := db.nodup_entryRows
  rw [h.rows] at hnodup
  have hapart := (List.nodup_append.mp hnodup).2.2
  rw [h.left, Db.entryRows_without, h.rows, List.filter_append,
    List.filter_eq_nil_iff.mpr (by simp), List.nil_append]
  apply List.filter_eq_self.mpr
  intro e he
  have : e ∉ taken := by
    intro hmem
    exact hapart e hmem e he rfl
  simp [this]

namespace Tier

variable {tier : Tier} {total incoming : Nat} {now fin : Progress}

/-- The number of bytes that an eviction has to free. -/
def required (tier : Tier) (total incoming : Nat) : Nat :=
  satAdd total incoming - tier.budget

theorem required_le (tier : Tier) (total incoming : Nat) : tier.required total incoming ≤ wordMax :=
  Nat.le_trans (Nat.sub_le _ _) (Nat.min_le_right _ _)

theorem Scan.freed_take (taken : List EntryRow) :
    (({} : Scan).take taken).freed = min (weigh taken) wordMax := by
  simp only [Scan.take, satAdd, Nat.zero_add]

/-- What a scan takes when it has enough is the shortest sufficient prefix. -/
theorem evicted_of_enough {db : Db} {taken rest : List EntryRow}
    (hrows : db.entryRows = taken ++ rest) (hread : ∀ e ∈ taken, 0 ≤ e.size)
    (henough : tier.required total incoming ≤ (({} : Scan).take taken).freed)
    (hshort : ∀ k < taken.length,
      (({} : Scan).take (taken.take k)).freed < tier.required total incoming) :
    Evicted (tier.required total incoming) taken rest db (db.without (· ∈ taken)) := by
  have hreq := required_le tier total incoming
  simp only [Scan.freed_take] at henough hshort
  refine ⟨hrows, hread, by omega, ?_, rfl⟩
  intro k hk
  have := hshort k hk
  omega

/-- **An eviction takes out the shortest sufficient prefix.** -/
theorem evict_ok (h : tier.evict total incoming now = .ok () fin) :
    ∃ taken rest, Evicted (tier.required total incoming) taken rest now.db fin.db := by
  simp only [evict, Work.bind_ok, Work.query_ok_iff] at h
  obtain ⟨found, _, ⟨hscan, rfl⟩, h⟩ := h
  cases hlast : found.last? with
  | none => simp [hlast] at h
  | some last =>
      simp only [hlast] at h
      split at h
      · simp at h
      · rename_i hfreed
        simp only [Work.bind_ok, Work.change_ok_iff, Work.report_ok,
          Db.deleteEntriesThrough, answered_eq_ok] at h
        obtain ⟨_, _, ⟨db', hdelete, rfl⟩, rfl⟩ := h
        obtain ⟨-, rfl⟩ := Db.deleteEntries_eq hdelete
        have hentries : now.db.entries.isSome := by
          simp only [Db.deleteEntries, Option.bind_eq_bind, Option.bind_eq_some_iff] at hdelete
          obtain ⟨entries, hentries, -⟩ := hdelete
          simp [hentries]
        rw [Db.evictionCandidates_of_entries hentries] at hscan
        have hscanned : Scanned (tier.required total incoming) {} now.db.entryRows (.ok found) :=
          hscan ▸ scanned_scan _ (Nat.zero_le _)
        cases hscanned with
        | exhausted hread hless => exact absurd hless hfreed
        | enough taken rest hrows hread henough hshort =>
            simp only [Scan.take, Option.or_none, Option.map_eq_some_iff] at hlast
            obtain ⟨e, he, rfl⟩ := hlast
            simp only [Db.without_through hrows he]
            exact ⟨taken, rest, evicted_of_enough hrows hread henough hshort⟩

/-- The error of an eviction that runs out of entries: the total is wrong. -/
def outOfEntries (rows : List EntryRow) : CacheError :=
  .corruption (if rows = [] then "no cached entries, but the total size is nonzero"
    else "total size exceeds the sum of all entry sizes")

/-- An eviction whose scan takes some first entries deletes these. -/
theorem evict_of_taken {taken rest : List EntryRow} {last : EntryRow} (hw : now.db.Whole)
    (hrows : now.db.entryRows = taken ++ rest) (hlast : taken.getLast? = some last)
    (henough : tier.required total incoming ≤ (({} : Scan).take taken).freed)
    (hscan : scan (tier.required total incoming) {} now.db.evictionCandidates =
      .ok (({} : Scan).take taken)) :
    tier.evict total incoming now = .ok ()
      { db := now.db.without (· ∈ taken)
        log := now.log ++ [.evicted tier.name taken.length (min (weigh taken) wordMax)] } := by
  have hfound : (({} : Scan).take taken).last? = some last.id := by simp [Scan.take, hlast]
  have hdelete : now.db.deleteEntriesThrough last.id =
      .ok ((now.db.entryRows.filter (·.id ≤ last.id)).length, now.db.without (· ∈ taken)) := by
    rw [Db.deleteEntriesThrough, answered_eq_ok, Db.deleteEntries_of_whole hw,
      Db.without_through hrows hlast]
  unfold required at hscan henough
  rw [evict, Work.bind_of_ok (Work.query_ok hscan)]
  simp only [hfound, if_neg (Nat.not_lt.mpr henough)]
  rw [Work.bind_of_ok (Work.change_ok hdelete), Scan.freed_take]
  simp only [Scan.take, Nat.zero_add]
  rfl

/-- An eviction whose scan runs out of entries fails. -/
theorem evict_of_exhausted
    (hless : (({} : Scan).take now.db.entryRows).freed < tier.required total incoming)
    (hscan : scan (tier.required total incoming) {} now.db.evictionCandidates =
      .ok (({} : Scan).take now.db.entryRows)) :
    tier.evict total incoming now = .error (outOfEntries now.db.entryRows) now := by
  unfold required at hscan hless
  rw [evict, Work.bind_of_ok (Work.query_ok hscan)]
  by_cases hnone : now.db.entryRows = []
  · simp only [hnone, Scan.take, outOfEntries]
    rfl
  · have hlast : (({} : Scan).take now.db.entryRows).last? =
        some (now.db.entryRows.getLast hnone).id := by
      simp [Scan.take, List.getLast?_eq_some_getLast hnone]
    simp only [hlast, if_pos hless, if_neg hnone, outOfEntries]
    rfl

/-- **How an eviction ends that has something to free**: it takes out the shortest
sufficient prefix, it comes to an entry that cannot be read, or all entries together
are not enough. -/
theorem evict_cases (hw : now.db.Whole) (hpos : 0 < tier.required total incoming) :
    (∃ taken rest,
      Evicted (tier.required total incoming) taken rest now.db (now.db.without (· ∈ taken)) ∧
      tier.evict total incoming now = .ok ()
        { db := now.db.without (· ∈ taken)
          log := now.log ++ [.evicted tier.name taken.length (min (weigh taken) wordMax)] }) ∨
    (∃ front e rest, now.db.entryRows = front ++ e :: rest ∧ e.size < 0 ∧
      weigh front < tier.required total incoming ∧
      tier.evict total incoming now = .error (.store (.invalidData "entry size")) now) ∨
    ((∀ e ∈ now.db.entryRows, 0 ≤ e.size) ∧
      weigh now.db.entryRows < tier.required total incoming ∧
      tier.evict total incoming now = .error (outOfEntries now.db.entryRows) now) := by
  have hreq := required_le tier total incoming
  have hscanned : Scanned (tier.required total incoming) {} now.db.entryRows
      (scan (tier.required total incoming) {} now.db.evictionCandidates) := by
    rw [Db.evictionCandidates_of_entries hw.entries]
    exact scanned_scan _ (Nat.zero_le _)
  generalize hscan : scan (tier.required total incoming) {} now.db.evictionCandidates = outcome
    at hscanned
  cases hscanned with
  | enough taken rest hrows hread henough hshort =>
      have hevicted := evicted_of_enough hrows hread henough hshort
      have hne : taken ≠ [] := by
        rintro rfl
        exact Nat.not_le.mpr hpos hevicted.enough
      exact Or.inl ⟨taken, rest, hevicted,
        evict_of_taken hw hrows (List.getLast?_eq_some_getLast hne) henough hscan⟩
  | unreadable front e rest hrows hread hsize hless =>
      rw [Scan.freed_take] at hless
      exact Or.inr (Or.inl ⟨front, e, rest, hrows, hsize, by omega,
        Work.bind_of_error (Work.query_error hscan)⟩)
  | exhausted hread hless =>
      have hfailed := evict_of_exhausted hless hscan
      rw [Scan.freed_take] at hless
      exact Or.inr (Or.inr ⟨hread, by omega, hfailed⟩)

/-- An eviction does not fail if the entries are readable and hold at least what
is required, and something is. -/
theorem exists_evict (hw : now.db.Whole) (hread : ∀ e ∈ now.db.entryRows, 0 ≤ e.size)
    (hpos : 0 < tier.required total incoming)
    (henough : tier.required total incoming ≤ weigh now.db.entryRows) :
    ∃ fin, tier.evict total incoming now = .ok () fin := by
  rcases evict_cases hw hpos with
    ⟨taken, rest, -, hdone⟩ | ⟨front, e, rest, hrows, hsize, -⟩ | ⟨-, hless, -⟩
  · exact ⟨_, hdone⟩
  · exact absurd hsize (Int.not_lt.mpr (hread e (by simp [hrows])))
  · exact absurd hless (Nat.not_lt.mpr henough)

/-- Some of the first entries can be read and hold what is required. -/
def CanFree (required : Nat) (rows : List EntryRow) : Prop :=
  ∃ first, first <+: rows ∧ (∀ e ∈ first, 0 ≤ e.size) ∧ required ≤ weigh first

/-- Entries behind one that cannot be read do not count. -/
theorem not_canFree_of_unreadable {required : Nat} {front rest : List EntryRow} {e : EntryRow}
    (hsize : e.size < 0) (hless : weigh front < required) :
    ¬ CanFree required (front ++ e :: rest) := by
  rintro ⟨first, ⟨left, hrows⟩, hread, henough⟩
  rcases List.append_eq_append_iff.mp hrows with ⟨more, hfront, -⟩ | ⟨more, hfirst, hmore⟩
  · rw [hfront, weigh_append] at hless
    omega
  · cases more with
    | nil =>
        rw [hfirst, List.append_nil] at henough
        omega
    | cons x more =>
        have hbad := hread e (by simp [hfirst, (List.cons.inj hmore).1])
        omega

theorem not_canFree_of_less {required : Nat} {rows : List EntryRow} (hless : weigh rows < required) :
    ¬ CanFree required rows := by
  rintro ⟨first, ⟨left, rfl⟩, -, henough⟩
  rw [weigh_append] at hless
  omega

/-- **What an eviction does.**  If some of the first entries can be read and hold the
bytes over the budget, the fewest such are deleted, and their number and bytes are
reported.  If not, nothing is changed, and the error says whether an entry could not be
read or all of them were not enough.  Where the total is right and what comes fits into
the budget by itself, an eviction does not fail. -/
theorem evict_shortest (hw : now.db.Whole) (hover : tier.budget < satAdd total incoming) :
    let required := satAdd total incoming - tier.budget
    let rows := now.db.entryRows
    (CanFree required rows → ∃ taken rest,
      Evicted required taken rest now.db (now.db.without (· ∈ taken)) ∧
      (now.db.without (· ∈ taken)).entryRows = rest ∧
      tier.evict total incoming now = .ok ()
        { db := now.db.without (· ∈ taken)
          log := now.log ++ [.evicted tier.name taken.length (min (weigh taken) wordMax)] }) ∧
    (¬ CanFree required rows →
      ((∃ e ∈ rows, e.size < 0) →
        tier.evict total incoming now = .error (.store (.invalidData "entry size")) now) ∧
      ((∀ e ∈ rows, 0 ≤ e.size) →
        tier.evict total incoming now = .error (outOfEntries rows) now)) ∧
    ((∀ e ∈ rows, 0 ≤ e.size) → total = weigh rows → incoming ≤ tier.budget →
      ∃ fin, tier.evict total incoming now = .ok () fin) := by
  intro required rows
  have hpos : 0 < tier.required total incoming := by
    unfold Tier.required
    omega
  refine ⟨?_, ?_, ?_⟩
  · intro hfree
    rcases evict_cases hw hpos with
      ⟨taken, rest, hevicted, hdone⟩ | ⟨front, e, rest, hrows, hsize, hless, -⟩ | ⟨-, hless, -⟩
    · exact ⟨taken, rest, hevicted, hevicted.rows_left, hdone⟩
    · simp only [rows, hrows] at hfree
      exact absurd hfree (not_canFree_of_unreadable hsize hless)
    · exact absurd hfree (not_canFree_of_less hless)
  · intro hfree
    rcases evict_cases hw hpos with
      ⟨taken, rest, hevicted, -⟩ | ⟨front, e, rest, hrows, hsize, -, hfailed⟩ |
      ⟨hread, -, hfailed⟩
    · exact absurd ⟨taken, ⟨rest, hevicted.rows.symm⟩, hevicted.readable, hevicted.enough⟩ hfree
    · refine ⟨fun _ => hfailed, ?_⟩
      intro hread
      exact absurd hsize (Int.not_lt.mpr (hread e (by simp [rows, hrows])))
    · refine ⟨?_, fun _ => hfailed⟩
      rintro ⟨e, he, hsize⟩
      exact absurd hsize (Int.not_lt.mpr (hread e he))
  · intro hread htotal hincoming
    refine exists_evict hw hread hpos ?_
    have hsum := satAdd_le total incoming
    unfold Tier.required
    simp only [rows] at htotal
    omega

/-- An entry of no bytes goes with the first of 3 bytes that are over the budget; the
unreadable one behind them matters only if 4 bytes are. -/
theorem evict_shortest_unreadable :
    let db : Db := { Db.empty with
      globals := some [.real largest]
      blobs := some ⟨[⟨1, 3⟩], by simp, by simp⟩
      chunks := some ∅
      entries := some ⟨[⟨-7, "a", 0, 1⟩, ⟨2, "b", 3, 1⟩, ⟨5, "c", -2, 1⟩], by decide, by decide⟩ }
    let tier : Tier := { location := .memory, budget := 4 }
    (db.Whole ∧ tier.budget < satAdd 6 1) ∧
    (∃ fin, tier.evict 6 1 { db } = .ok () fin ∧ fin.db.entryRows = [⟨5, "c", -2, 1⟩] ∧
      fin.log = [.evicted ":memory:" 2 3]) ∧
    tier.evict 6 2 { db } = .error (.store (.invalidData "entry size")) { db } := by
  intro db tier
  have hw : db.Whole := ⟨rfl, rfl, rfl, rfl, rfl⟩
  have hover : tier.budget < satAdd 6 1 := by decide
  refine ⟨⟨hw, hover⟩, ?_, ?_⟩
  · have hfree : CanFree 3 db.entryRows :=
      ⟨[⟨-7, "a", 0, 1⟩, ⟨2, "b", 3, 1⟩], ⟨[⟨5, "c", -2, 1⟩], rfl⟩, by decide, by decide⟩
    obtain ⟨taken, rest, hevicted, hleft, hdone⟩ :=
      (@evict_shortest tier 6 1 { db } hw hover).1 hfree
    have hrows : [⟨-7, "a", 0, 1⟩, ⟨2, "b", 3, 1⟩, ⟨5, "c", -2, 1⟩] = taken ++ rest :=
      hevicted.rows
    have henough : 3 ≤ weigh taken := hevicted.enough
    obtain ⟨rfl, rfl⟩ : taken = [⟨-7, "a", 0, 1⟩, ⟨2, "b", 3, 1⟩] ∧ rest = [⟨5, "c", -2, 1⟩] := by
      rcases taken with _ | ⟨x, _ | ⟨y, _ | ⟨z, taken⟩⟩⟩ <;>
        simp only [List.nil_append, List.cons_append, List.cons.injEq] at hrows
      · exact absurd henough (by decide)
      · obtain ⟨rfl, -⟩ := hrows
        exact absurd henough (by decide)
      · obtain ⟨rfl, rfl, rfl⟩ := hrows
        exact ⟨rfl, rfl⟩
      · obtain ⟨rfl, rfl, -⟩ := hrows
        have hshort : 3 < 3 := hevicted.shortest 2 (by simp)
        omega
    exact ⟨_, hdone, hleft, rfl⟩
  · have hbad : ¬ CanFree 4 db.entryRows :=
      @not_canFree_of_unreadable 4 [⟨-7, "a", 0, 1⟩, ⟨2, "b", 3, 1⟩] [] ⟨5, "c", -2, 1⟩
        (by decide) (by decide)
    exact ((@evict_shortest tier 6 2 { db } hw (by decide)).2.1 hbad).1
      ⟨⟨5, "c", -2, 1⟩, by decide, by decide⟩

end Tier

end BlobCache
