import BlobCache.Proofs.Budget
import BlobCache.Proofs.Lookup

/-!
# A tier is a list in the order of use

What a tier does can be said without tables, on the list of keys and payloads
alone (`Lru`): a put leaves out the shortest prefix that makes room, takes the
old pair of its key out and appends the new one; a get moves the pair of its key
to the end.  From a fresh store on, a tier gives the answers of this list, and
its contents are this list, after every step (`Tier.trace_eq`).

A put goes through in any database that has its tables, refuses nothing, keeps its
references and has the right total (`Tier.tryPut_cached`).
`Db.Ready` says what a database has to be like for every operation to go
through: nothing is missing or refused, rows belong together, the total is
right, and there are ids left.  It is preserved by each operation at the cost of
one id (`Tier.serve_ready`).
-/

namespace BlobCache

/-- Keys with payloads, least recently used first. -/
abbrev Lru := List (String × Bytes)

/-- What a user asks of a tier: the payload of a put can be read, and a get can
write its payload to the directory. -/
inductive Use where
  | put (key path : String) (content : Bytes)
  | get (directory key : String)
  | stats
deriving DecidableEq, Repr

/-- A use as a request to a tier. -/
def Use.request : Use → Request
  | .put key path content => .put key ⟨path, some ⟨content.length, content⟩⟩
  | .get directory key => .get (some directory) key
  | .stats => .stats

namespace Lru

/-- The bytes of all payloads. -/
def held (l : Lru) : Nat := (l.map (·.2.length)).sum

/-- The list without the shortest prefix that holds `required` bytes. -/
def shed (required : Nat) : Lru → Lru
  | [] => []
  | pair :: rest => if required = 0 then pair :: rest else shed (required - pair.2.length) rest

/-- Make room for a payload and put it at the end, in place of what the key had. -/
def put (budget : Nat) (key : String) (content : Bytes) (l : Lru) : Lru :=
  (l.shed (l.held + content.length - budget)).filter (·.1 ≠ key) ++ [(key, content)]

/-- The answer to a use, and the list afterwards. -/
def serve (budget : Nat) (l : Lru) : Use → Reply × Lru
  | .put key _ content =>
    if budget < content.length then (.stored (.ok .oversized), l)
    else (.stored (.ok .cached), l.put budget key content)
  | .get directory key =>
    match l.find? (·.1 = key) with
    | none => (.found (.ok none), l)
    | some (_, content) =>
      (.found (.ok (some ⟨directory, content⟩)), l.filter (·.1 ≠ key) ++ [(key, content)])
  | .stats => (.counted (.ok ⟨l.length, l.held, budget⟩), l)

/-- The answers of a run, each with the list after it. -/
def trace (budget : Nat) (l : Lru) : List Use → List (Reply × Lru)
  | [] => []
  | use :: rest => l.serve budget use :: trace budget (l.serve budget use).2 rest

@[simp] theorem held_nil : held [] = 0 := rfl

@[simp] theorem held_cons (pair : String × Bytes) (l : Lru) :
    held (pair :: l) = pair.2.length + held l := by
  simp [held]

/-- What is shed is the shortest prefix that holds enough. -/
theorem shed_append {required : Nat} {taken rest : Lru} (henough : required ≤ held taken)
    (hshort : ∀ k < taken.length, held (taken.take k) < required) :
    shed required (taken ++ rest) = rest := by
  induction taken generalizing required with
  | nil =>
      obtain rfl : required = 0 := by simpa using henough
      cases rest <;> simp [shed]
  | cons pair taken ih =>
      have hpos : required ≠ 0 := by
        have := hshort 0 (by simp)
        omega
      rw [held_cons] at henough
      rw [List.cons_append, shed, if_neg hpos]
      apply ih (by omega)
      intro k hk
      have := hshort (k + 1) (by simpa using hk)
      rw [List.take_succ_cons, held_cons] at this
      omega

end Lru

/-- The answers of a run of a tier, each with the contents after it. -/
def Tier.trace (tier : Tier) (db : Db) : List Request → List (Reply × Lru)
  | [] => []
  | request :: rest =>
    let done := tier.serve request db
    (done.1, done.2.contents) :: tier.trace done.2 rest

namespace Db

/-- No operation of a tier with this budget fails, and of the ids, `n` are used
up. -/
structure Ready (n : Int) (budget : Nat) (db : Db) : Prop where
  whole : db.Whole
  intact : db.Intact none
  balanced : db.Balanced
  within : db.held ≤ budget
  used : 0 ≤ n
  entryIds : ∀ i ∈ db.entryIds, i ≤ n
  blobIds : ∀ i ∈ db.blobIds, i ≤ n

variable {db db' : Db} {n : Int} {budget : Nat}

theorem held_contents {rows : List EntryRow} (h : db.Intact none)
    (hrows : ∀ e ∈ rows, e ∈ db.entryRows) : Lru.held (rows.map db.binding) = weigh rows := by
  induction rows with
  | nil => rfl
  | cons e rows ih =>
      have hlength := h.length_payload (hrows e (by simp))
      rw [List.map_cons, Lru.held_cons, weigh_cons, ih fun x hx => hrows x (by simp [hx])]
      simp only [binding]
      omega

/-- The bytes of all payloads. -/
theorem held_contents_eq (h : db.Intact none) : Lru.held db.contents = weigh db.entryRows :=
  held_contents h fun _ he => he

/-- The pair of a key is the binding of its entry. -/
theorem find?_contents (key : String) :
    db.contents.find? (·.1 = key) = (db.entryRows.find? (·.key = key)).map db.binding := by
  rw [contents, List.find?_map]
  rfl

end Db

/-- An eviction sheds what the list of contents sheds. -/
theorem Evicted.shed_contents {required : Nat} {taken rest : List EntryRow} {db db' : Db}
    (h : Evicted required taken rest db db') (hi : db.Intact none) :
    Lru.shed required db.contents = db'.contents := by
  have hmem : ∀ e ∈ taken, e ∈ db.entryRows := by
    intro e he
    simp [h.rows, he]
  rw [h.contents_eq, Db.contents, h.rows, List.map_append]
  apply Lru.shed_append
  · rw [Db.held_contents hi hmem]
    exact h.enough
  · intro k hk
    rw [List.length_map] at hk
    rw [← List.map_take, Db.held_contents hi fun e he => hmem e (List.mem_of_mem_take he)]
    exact h.shortest k hk

/-- Room is made by shedding what is over the budget. -/
theorem Writing.roomy_contents {tier : Tier} {key : String} {file : Readable} {db db' : Db}
    (w : Writing tier key file db db') (hi : db.Intact none) (hb : db.Balanced)
    (hfits : (file.size : Int) ≤ largest) :
    w.roomy.contents =
      Lru.shed (Lru.held db.contents + file.size - tier.budget) db.contents := by
  rw [← w.evicted.shed_contents hi, w.required_eq hb hfits, Db.held_contents_eq hi]

/-! ## A put that goes through -/

namespace Tier

variable {tier : Tier} {key path : String} {file : Readable} {db : Db} {n : Int} {budget : Nat}

/-- Room can be made for any payload that the budget allows.  It is reported if
something has to go for it. -/
theorem exists_makeRoom (hw : db.Whole) (hb : db.Balanced) {size : Nat}
    (hfits : (size : Int) ≤ largest) (hsize : size ≤ tier.budget) :
    ∃ taken rest roomy, Evicted (tier.required (weigh db.entryRows) size) taken rest db roomy ∧
      tier.makeRoom size { db } = .ok ()
        { db := roomy
          log := if tier.budget < weigh db.entryRows + size then
              [.evicted tier.name taken.length (weigh taken)]
            else [] } := by
  have hrequired := hb.required_eq tier hfits
  have hheld := Db.held_eq_weigh hb.sizes
  have hword : ((weigh db.entryRows + size : Nat) : Int) ≤ wordMax := by
    have := hb.fits
    simp only [largest] at this hfits
    simp only [wordMax]
    omega
  have hsum := satAdd_eq (Int.ofNat_le.mp hword)
  unfold makeRoom
  rw [Work.bind_of_ok (Work.query_ok hb.totalSize_eq), hsum]
  by_cases hover : tier.budget < weigh db.entryRows + size
  · simp only [if_pos hover]
    have hpos : 0 < tier.required (weigh db.entryRows) size := by omega
    have hstart : ({ db } : Progress).db.Whole := hw
    rcases evict_cases hstart hpos with
      ⟨taken, rest, hevicted, hdone⟩ | ⟨front, e, rest, hrows, hbad, -⟩ | ⟨-, hless, -⟩
    · have hall : weigh db.entryRows = weigh (taken ++ rest) := congrArg weigh hevicted.rows
      rw [weigh_append] at hall
      rw [Nat.min_eq_left (by omega)] at hdone
      exact ⟨taken, rest, _, hevicted, hdone⟩
    · have hmem : e ∈ db.entryRows := by
        rw [hrows]
        simp
      exact absurd hbad (Int.not_lt.mpr (hb.sizes e hmem))
    · simp only at hless
      omega
  · simp only [if_neg hover]
    have hnone : tier.required (weigh db.entryRows) size = 0 := by omega
    exact ⟨[], db.entryRows, db, hnone ▸ Evicted.nothing db, rfl⟩

/-- What there is room for can be written. -/
theorem exists_fill {now : Progress} (hw : now.db.Whole) (hl : now.db.Linked)
    (hsize : (file.size : Int) ≤ largest) (hlong : file.size ≤ file.content.length) :
    ∃ fin, fill key path file now = .ok () fin ∧ fin.log = now.log := by
  obtain ⟨blob, hblob, hnew⟩ := exists_unused_freshId? now.db.blobIds_ascending
  obtain ⟨stocked, hstocked⟩ := Db.exists_insertBlob file.size hw hblob hnew
  obtain ⟨hadded, -⟩ := Db.insertBlob_added hstocked
  have hcleared := (hadded.whole hw).without (·.key = key)
  -- no entry refers to the new blob, so it outlives the old entry of the key
  have hout : stocked.outlives (·.key = key) blob = true := by
    refine Db.outlives_iff.mpr (Or.inl ?_)
    rintro e he - rfl
    exact hnew (hl.entries e (hadded.entryRows_eq ▸ he))
  obtain ⟨id, hid, hfree⟩ :=
    exists_unused_freshId? (stocked.without (·.key = key)).entryIds_ascending
  have hfresh : ∀ e ∈ (stocked.without (·.key = key)).entryRows, e.id ≠ id ∧ e.key ≠ key := by
    intro e he
    constructor
    · rintro rfl
      exact hfree (Db.mem_entryIds.mpr ⟨e, he, rfl⟩)
    · rw [Db.entryRows_without] at he
      simpa using (List.mem_filter.mp he).2
  obtain ⟨listed, hlisted⟩ := Db.exists_insertEntry file.size hcleared
    (Db.mem_blobIds_without (hadded.mem_blobIds.mpr (Or.inl rfl)) hout) hid hfresh
  obtain ⟨hentered, -⟩ := Db.insertEntry_added hlisted
  have hempty : listed.chunkRowsOf blob = [] := by
    rw [Db.chunkRowsOf, hentered.chunkRows_eq]
    exact (Db.chunkRowsOf_without hout).trans (hl.chunkRowsOf_added hadded)
  have hblobIds : blob ∈ listed.blobIds := hentered.blobIds_eq ▸ hentered.blob
  obtain ⟨fin, hfin, hlog⟩ : ∃ fin, copyIn path blob 0 file.size file.content
      { now with db := listed } = .ok () fin ∧ fin.log = now.log :=
    exists_copyIn (hentered.whole hcleared) hblobIds (by simp [hempty]) hlong
  refine ⟨fin, ?_, hlog⟩
  simp only [fill, Work.bind_ok, Work.change_ok_iff, Db.addBlob, Db.deleteEntryByKey, Db.addEntry,
    except_bind_eq_ok, storedSize_eq_ok, answered_eq_ok]
  exact ⟨blob, _, ⟨stocked, ⟨_, ⟨hsize, rfl⟩, hstocked⟩, rfl⟩, _, _,
    ⟨_, ⟨_, Db.deleteEntries_of_whole (hadded.whole hw) _, rfl⟩, rfl⟩, id, _,
    ⟨listed, ⟨_, ⟨hsize, rfl⟩, hlisted⟩, rfl⟩, hfin⟩

/-- **A put goes through** in a database that has its tables and refuses nothing, keeps
its references and has the right total on record, if the payload can be read and the
budget allows it. -/
theorem tryPut_cached (key path : String) (hw : db.Whole) (hl : db.Linked) (hb : db.Balanced)
    (hopen : tier.isOpen = true) (hfits : (file.size : Int) ≤ largest)
    (hsize : file.size ≤ tier.budget) (hlong : file.size ≤ file.content.length) :
    ∃ (after : Db) (w : Writing tier key file db after),
      tier.tryPut key ⟨path, some file⟩ db = ⟨.ok .cached, after,
        (if tier.budget < weigh db.entryRows + file.size then
          [.evicted tier.name w.taken.length (weigh w.taken)]
        else []) ++ [.cached tier.name key file.size]⟩ := by
  obtain ⟨taken, rest, roomy, hevicted, hroom⟩ := exists_makeRoom hw hb hfits hsize
  have hroomy : roomy.Whole := hevicted.left ▸ hw.without _
  obtain ⟨fin, hfill, hlog⟩ : ∃ fin, fill key path file ⟨roomy, _⟩ = .ok () fin ∧ fin.log = _ :=
    exists_fill hroomy (hevicted.linked hl) hfits hlong
  obtain ⟨filling⟩ := fill_ok hfill
  have hwork : tier.writeEntry key path file { db } = .ok () fin := by
    rw [writeEntry_eq, Work.bind_ok]
    exact ⟨(), _, hroom, hfill⟩
  have hdone : transact (tier.writeEntry key path file) db = ⟨.ok (), fin.db, fin.log⟩ :=
    transact_ok hwork
  refine ⟨fin.db, ⟨_, taken, rest, roomy, hb.totalSize_eq, hevicted, filling⟩, ?_⟩
  simp only [tryPut, if_neg (Nat.not_lt.mpr hsize), hopen, Bool.not_true, Bool.false_eq_true,
    if_false, hdone, hlog]

end Tier

/-- The new entry comes after all others, and its id is the next one at most. -/
theorem Filling.id_last {key : String} {file : Readable} {db db' : Db} {n : Int}
    (f : Filling key file db db') (hn : 0 ≤ n) (hlt : n < largest)
    (hids : ∀ i ∈ db.entryIds, i ≤ n) :
    (∀ e ∈ db.entryRows, e.key ≠ key → e.id < f.id) ∧ f.id ≤ n + 1 := by
  have hmem : ∀ e ∈ db.entryRows, e.key ≠ key →
      e.id ∈ (f.stocked.without (·.key = key)).entryIds := by
    intro e he hkey
    refine Db.mem_entryIds.mpr ⟨e, ?_, rfl⟩
    rw [Db.entryRows_without, f.added.entryRows_eq, List.mem_filter]
    exact ⟨he, by simpa using hkey⟩
  have hcleared : ∀ i ∈ (f.stocked.without (·.key = key)).entryIds, i ≤ n := by
    intro i hmem
    have hi := Db.mem_entryIds_of_without hmem
    rw [Db.entryIds, f.added.entryRows_eq] at hi
    exact hids i hi
  obtain ⟨id, hid, habove, hle⟩ := exists_freshId?
    (f.stocked.without (·.key = key)).entryIds_ascending hcleared hn hlt
  obtain rfl : id = f.id := Option.some.inj (hid.symm.trans f.entryId)
  exact ⟨fun e he hkey => habove _ (hmem e he hkey), hle⟩

/-! ## Being ready is preserved -/

namespace Db

variable {tier : Tier} {key : String} {file : Readable} {db db' : Db} {n : Int} {budget : Nat}

/-- The database that a store makes at a new location. -/
def fresh : Db where
  format := some [currentFormat]
  globals := some [.integer 0]
  blobs := some ∅
  chunks := some ∅
  entries := some ∅
  ledger := some [schemaMigration]

theorem ready_fresh (budget : Nat) : fresh.Ready 0 budget where
  whole := ⟨rfl, rfl, rfl, rfl, rfl⟩
  intact := Intact.empty.sameRows ⟨rfl, rfl, rfl⟩
  balanced := ⟨fun _ he => (List.not_mem_nil he).elim, ⟨[], rfl⟩, by decide⟩
  within := Int.natCast_nonneg _
  used := Int.le_refl _
  entryIds i hi := by cases hi
  blobIds i hi := by cases hi

/-- An unused id may count as used. -/
theorem Ready.mono (h : db.Ready n budget) : db.Ready (n + 1) budget where
  whole := h.whole
  intact := h.intact
  balanced := h.balanced
  within := h.within
  used := by have := h.used; omega
  entryIds i hi := by have := h.entryIds i hi; omega
  blobIds i hi := by have := h.blobIds i hi; omega

theorem Ready.without (h : db.Ready n budget) (p : EntryRow → Bool) :
    (db.without p).Ready n budget where
  whole := h.whole.without p
  intact := h.intact.without p
  balanced := h.balanced.without p
  within := Int.le_trans (h.balanced.held_without_le p) h.within
  used := h.used
  entryIds i hi := h.entryIds i (mem_entryIds_of_without hi)
  blobIds i hi := h.blobIds i (mem_blobIds_of_without hi)

theorem Ready.evicted (h : db.Ready n budget) {required : Nat} {taken rest : List EntryRow}
    (hevicted : Evicted required taken rest db db') : db'.Ready n budget := by
  rw [hevicted.left]
  exact h.without _

theorem Ready.filled (h : db.Ready n budget) (hlt : n < largest) (f : Filling key file db db')
    (hroom : db.held + file.size ≤ budget) (hbudget : (budget : Int) ≤ largest) :
    db'.Ready (n + 1) budget := by
  have hcopied := f.copied_of_linked h.intact.linked
  obtain ⟨hbalanced, hheld⟩ := f.held_le h.balanced (by omega)
  obtain ⟨blob, hblob, -, hle⟩ := exists_freshId? db.blobIds_ascending h.blobIds h.used hlt
  obtain rfl : blob = f.blob := Option.some.inj (hblob.symm.trans f.blobId)
  refine ⟨f.whole h.whole h.intact.linked, f.intact h.intact, hbalanced, by omega, ?_, ?_, ?_⟩
  · have := h.used
    omega
  · intro i hi
    obtain ⟨e, he, rfl⟩ := mem_entryIds.mp hi
    rw [f.entryRows_eq, Table.mem_place] at he
    rcases he with rfl | he
    · exact (f.id_last h.used hlt h.entryIds).2
    · have := h.entryIds _ (mem_entryIds.mpr ⟨e, (List.mem_filter.mp he).1, rfl⟩)
      omega
  · intro i hi
    rw [hcopied.blobIds_eq, f.entered.blobIds_eq] at hi
    obtain ⟨b, hb, rfl⟩ := mem_blobIds.mp hi
    rw [blobRows_without, List.mem_filter, f.added.rows, Table.mem_place] at hb
    rcases hb.1 with rfl | hb
    · exact hle
    · have := h.blobIds _ (mem_blobIds_of_mem hb)
      omega

/-- **A put leaves the database ready for the next operation.** -/
theorem Ready.written (h : db.Ready n tier.budget) (hlt : n < largest)
    (hbudget : (tier.budget : Int) ≤ largest) (hsize : file.size ≤ tier.budget)
    (w : Writing tier key file db db') : db'.Ready (n + 1) tier.budget := by
  have hroom := w.roomy_held_le h.balanced hbudget hsize
  exact (h.evicted w.evicted).filled hlt w.filling hroom hbudget

theorem Ready.moved {e : EntryRow} {top : Int} (h : db.Ready n budget)
    (hmoved : EntryMoved e top db db') : db'.Ready (n + 1) budget := by
  obtain ⟨hbalanced, hheld⟩ := h.balanced.entryMoved hmoved
  refine ⟨hmoved.whole h.whole, h.intact.entryMoved hmoved, hbalanced, ?_, ?_, ?_, ?_⟩
  · rw [hheld]
    exact h.within
  · have := h.used
    omega
  · intro i hi
    obtain ⟨x, hx, rfl⟩ := mem_entryIds.mp hi
    rw [hmoved.rows, List.mem_append, List.mem_singleton] at hx
    rcases hx with hx | rfl
    · have := h.entryIds _ (mem_entryIds.mpr ⟨x, (List.mem_filter.mp hx).1, rfl⟩)
      omega
    · obtain ⟨last, hlast, rfl⟩ := hmoved.next
      have := h.entryIds _ hlast
      simp only
      omega
  · intro i hi
    rw [hmoved.blobIds_eq] at hi
    have := h.blobIds i hi
    omega

end Db

/-! ## One step -/

namespace Tier

variable {tier : Tier} {key path directory : String} {content : Bytes} {db : Db} {n : Int}

/-- A put of a payload that the budget allows caches it. -/
theorem tryPut_ready (key path : String) (h : db.Ready n tier.budget)
    (hbudget : (tier.budget : Int) ≤ largest) (hopen : tier.isOpen = true)
    (hsize : content.length ≤ tier.budget) :
    (tier.tryPut key ⟨path, some ⟨content.length, content⟩⟩ db).result = .ok .cached := by
  let file : Readable := ⟨content.length, content⟩
  have hfits : (file.size : Int) ≤ largest := by simp only [file]; omega
  have hlong : file.size ≤ file.content.length := Nat.le_refl _
  obtain ⟨after, w, hdone⟩ := tryPut_cached key path h.whole h.intact.linked h.balanced hopen
    hfits hsize hlong
  exact congrArg Outcome.result hdone

theorem stats_ready (h : db.Ready n tier.budget) (hopen : tier.isOpen = true) :
    (tier.stats db).result = .ok ⟨db.contents.length, Lru.held db.contents, tier.budget⟩ := by
  obtain ⟨entries, hentries⟩ := Option.isSome_iff_exists.mp h.whole.entries
  have hlength : entries.rows.length = db.contents.length := by
    simp only [Db.contents, Db.entryRows, hentries, Option.map_some, Option.getD_some,
      List.length_map]
  have hheld := (Db.held_contents_eq h.intact).symm
  have hcount : db.entryCount = .ok db.contents.length := by
    rw [← hlength]
    simp [Db.entryCount, hentries, answered, bind, Except.bind]
  have hwork : tier.readStats { db } =
      .ok ⟨db.contents.length, Lru.held db.contents, tier.budget⟩ { db } := by
    simp only [readStats, Work.bind_ok, Work.query_ok_iff, Work.pure_ok]
    exact ⟨_, _, ⟨hcount, rfl⟩, _, _, ⟨hheld ▸ h.balanced.totalSize_eq, rfl⟩, rfl, rfl⟩
  simp only [stats, hopen, if_true]
  exact congrArg Outcome.result (transact_ok hwork)

/-- **One step.**  A database that is ready gives the answer of the list, its
contents are the list afterwards, and it is ready again. -/
theorem serve_ready (h : db.Ready n tier.budget) (hlt : n < largest)
    (hbudget : (tier.budget : Int) ≤ largest) (hopen : tier.isOpen = true) (use : Use) :
    (tier.serve use.request db).1 = (Lru.serve tier.budget db.contents use).1 ∧
    (tier.serve use.request db).2.contents = (Lru.serve tier.budget db.contents use).2 ∧
    (tier.serve use.request db).2.Ready (n + 1) tier.budget := by
  cases use with
  | put key path content =>
      simp only [Use.request, serve, Lru.serve]
      by_cases hsize : tier.budget < content.length
      · have hdone : tier.tryPut key ⟨path, some ⟨content.length, content⟩⟩ db =
            ⟨.ok .oversized, db, [.oversized tier.name key content.length tier.budget]⟩ := by
          simp only [tryPut, if_pos hsize]
        rw [hdone, if_pos hsize]
        exact ⟨rfl, rfl, h.mono⟩
      · have hresult := tryPut_ready key path h hbudget hopen
          (Nat.not_lt.mp hsize)
        rcases tier.tryPut_cases key ⟨path, some ⟨content.length, content⟩⟩ db with
          ⟨file, hfile, hfits, -, -, ⟨w⟩⟩ | ⟨hother, -⟩
        · obtain rfl := Option.some.inj hfile
          rw [hresult, if_neg hsize]
          refine ⟨rfl, ?_, h.written hlt hbudget hfits w⟩
          have hroomy := h.evicted w.evicted
          have hlast := (w.filling.id_last hroomy.used hlt hroomy.entryIds).1
          rw [w.filling.contents_eq hroomy.intact hlast,
            w.roomy_contents h.intact h.balanced (by omega), List.take_length]
          rfl
        · exact absurd hresult hother
  | get directory key =>
      simp only [Use.request, serve, Lru.serve, Db.find?_contents]
      cases hfind : db.entryRows.find? (·.key = key) with
      | none =>
          rw [tryGet_miss h.whole.entries hopen hfind]
          exact ⟨rfl, rfl, h.mono⟩
      | some e =>
          have hids : ∀ x ∈ db.entryRows, x.id < largest := by
            intro x hx
            exact Int.lt_of_le_of_lt (h.entryIds _ (Db.mem_entryIds.mpr ⟨x, hx, rfl⟩)) hlt
          obtain ⟨hresult, top, hmoved⟩ := tryGet_hit directory hopen h.whole hids hfind
            (h.intact.length_payload (List.mem_of_find?_eq_some hfind))
          have hkey : e.key = key := by simpa using List.find?_some hfind
          rw [hresult, hmoved.contents_eq, hkey]
          refine ⟨rfl, ?_, h.moved hmoved⟩
          simp only [Option.map_some, Db.binding, hkey]
  | stats =>
      rw [Use.request, serve, Lru.serve, stats_ready h hopen, stats_db]
      exact ⟨rfl, rfl, h.mono⟩

/-- A run of a tier on a database that is ready, with ids left for every step. -/
theorem trace_ready (hbudget : (tier.budget : Int) ≤ largest) (hopen : tier.isOpen = true)
    (uses : List Use) (h : db.Ready n tier.budget) (hids : n + uses.length ≤ largest) :
    tier.trace db (uses.map Use.request) = Lru.trace tier.budget db.contents uses := by
  induction uses generalizing db n with
  | nil => rfl
  | cons use rest ih =>
      rw [List.length_cons, Int.natCast_succ] at hids
      obtain ⟨hanswer, hcontents, hready⟩ := serve_ready h (by omega) hbudget hopen use
      rw [List.map_cons, trace, Lru.trace, ih hready (by omega), hcontents, hanswer]

theorem openOn_empty (location : Location) (budget : Nat) (extractDir : Option String) :
    openOn location budget extractDir .empty = ⟨.ok { location, budget, extractDir }, .fresh, []⟩ :=
  rfl

/-- **A tier is a list in the order of use.**  From a fresh store on, as long as
there are ids for every step, each answer and the contents after it are those of
the list. -/
theorem trace_eq (location : Location) {budget : Nat} (extractDir : Option String)
    (uses : List Use) (hbudget : (budget : Int) ≤ largest)
    (hids : (uses.length : Int) < largest) :
    ∃ tier db log, openOn location budget extractDir .empty = ⟨.ok tier, db, log⟩ ∧
      db.contents = [] ∧
      tier.trace db (uses.map Use.request) = Lru.trace budget [] uses := by
  refine ⟨_, _, _, openOn_empty location budget extractDir, rfl, ?_⟩
  exact trace_ready hbudget rfl uses
    (Db.ready_fresh budget) (by omega)

/-- A get saves its entry from the next eviction. -/
theorem trace_of_three_puts :
    let uses : List Use := [.put "a" "f" [1, 2, 3], .put "b" "g" [4], .get "tmp" "a",
      .put "c" "h" [5, 6]]
    ∃ tier db log, openOn .memory 5 none .empty = ⟨.ok tier, db, log⟩ ∧
      tier.trace db (uses.map Use.request) = Lru.trace 5 [] uses ∧
      (Lru.trace 5 [] uses).getLast?.map (·.2) = some [("a", [1, 2, 3]), ("c", [5, 6])] := by
  intro uses
  obtain ⟨tier, db, log, hopened, -, htrace⟩ :=
    trace_eq .memory none uses (show ((5 : Nat) : Int) ≤ largest by decide) (by decide)
  exact ⟨tier, db, log, hopened, htrace, by decide⟩

end Tier

end BlobCache
