import BlobCache.Proofs.Reopening

/-!
# What an open store can rely on

A database comes to a store in any state: empty, made here, made by somebody else
without a ledger, or spoiled, with any number of rows where one belongs.  If it is
opened nevertheless, it has the current format version and a recorded total that is
the sum of all sizes; and either its tables are as they were, the totals apart, or
there were none and they were made empty (`Db.Opened`).

Opening is then done once and for all: the second time finds the schema on record
and the totals in agreement, and changes nothing (`Db.Opened.open_again`).  On a
machine the same database is found in the same file (`Machine.openStore_again`).
-/

namespace BlobCache

namespace Db

variable {db before after : Db} {location : String}

/-- All tables stay as they are, but that the recorded totals may be overwritten. -/
structure Kept (before after : Db) : Prop where
  frame : after = { before with globals := after.globals }
  totals : ∃ recorded, before.globals = some recorded ∧
    (after.globals = some recorded ∨
      ∃ n : Int, after.globals = some (recorded.map fun _ => .integer n))

/-- There was no table but the ledger, and the tables of the schema were made,
without rows but for the version and a total of zero. -/
structure Made (before after : Db) : Prop where
  nothing : before.format = none ∧ before.globals = none ∧ before.blobs = none ∧
    before.chunks = none ∧ before.entries = none
  schema : after = { fresh with ledger := after.ledger, refused := before.refused }

/-- What is left of the database `before` when a store was opened on it. -/
structure Opened (before after : Db) : Prop where
  migrated : after.Migrated
  version : after.formatVersion = .ok (some currentFormat)
  agree : ∃ total, after.totalSize = .ok total ∧ after.computedTotalSize = .ok total
  tables : Kept before after ∨ Made before after

/-! ## The schema -/

/-- The schema is made only where nothing is. -/
theorem createSchema_made {ledger : List Migration} {created : Db}
    (h : db.createSchema ledger = some created) :
    Made db created ∧ created.ledger = some (ledger ++ [schemaMigration]) := by
  simp only [createSchema, Option.ite_none_left_eq_some, Bool.or_eq_true, not_or,
    Bool.not_eq_true, Option.isSome_eq_false_iff, Option.isNone_iff_eq_none] at h
  obtain ⟨⟨⟨⟨⟨hformat, hglobals⟩, hblobs⟩, hchunks⟩, hentries⟩, ⟨⟩⟩ := h
  exact ⟨⟨⟨hformat, hglobals, hblobs, hchunks, hentries⟩, rfl⟩, rfl⟩

/-- A ledger without a failed migration that has the schema on record. -/
theorem migrated_of_ledger {ledger : List Migration} {known : Migration}
    (hformat : db.format.isSome) (hledger : db.ledger = some ledger)
    (hsucceeded : ledger.any (!·.succeeded) = false)
    (hknown : ledger.find? (·.version = schemaMigration.version) = some known)
    (hgenuine : known.genuine = true) : db.Migrated := by
  refine ⟨hformat, ?_, ?_⟩
  · intro recorded hrecorded migration hmem
    obtain rfl := Option.some.inj (hledger.symm.trans hrecorded)
    simpa using List.any_eq_false.mp hsucceeded migration hmem
  · intro recorded hrecorded
    obtain rfl := Option.some.inj (hledger.symm.trans hrecorded)
    exact ⟨known, hknown, hgenuine⟩

/-- There are three ways to bring the schema up to date: to leave a schema without a
ledger alone, to find it on record, and to make it. -/
theorem migrate_cases (h : (db.migrate location).result = .ok ()) :
    (db.format.isSome ∧ db.ledger = none ∧ (db.migrate location).db = db) ∨
      ∃ ledger, ledger.any (!·.succeeded) = false ∧
        ((∃ known, db.ledger = some ledger ∧
            ledger.find? (·.version = schemaMigration.version) = some known ∧
            known.genuine = true ∧ (db.migrate location).db = db) ∨
          (ledger.find? (·.version = schemaMigration.version) = none ∧
            ({ db with ledger := some ledger } : Db).createSchema ledger =
              some (db.migrate location).db)) := by
  unfold migrate at h ⊢
  split
  · rename_i hskip
    simp only [Bool.and_eq_true, Option.isNone_iff_eq_none] at hskip
    exact Or.inl ⟨hskip.1, hskip.2, rfl⟩
  · rename_i hskip
    rw [if_neg hskip] at h
    refine Or.inr ⟨db.ledger.getD [], ?_⟩
    simp only at h ⊢
    split at h
    · cases h
    · rename_i hfailed
      rw [Bool.not_eq_true] at hfailed
      refine ⟨hfailed, ?_⟩
      rw [if_neg (by simp [hfailed])]
      cases hknown : (db.ledger.getD []).find? (·.version = schemaMigration.version) with
      | some known =>
          have hrecorded : db.ledger = some (db.ledger.getD []) := by
            cases hledger : db.ledger with
            | none => simp [hledger] at hknown
            | some ledger => rfl
          have hsame : ({ db with ledger := some (db.ledger.getD []) } : Db) = db := by
            rw [← hrecorded]
          have hgenuine : known.genuine = true := by
            by_contra hfalse
            simp [hknown, hfalse] at h
          exact Or.inl ⟨known, hrecorded, rfl, hgenuine, hsame⟩
      | none =>
          refine Or.inr ⟨rfl, ?_⟩
          simp only [hknown] at h ⊢
          split at h
          · rename_i created hcreated
            rw [hcreated]
          · cases h

/-- **What bringing the schema up to date comes to.**  If it goes through, nothing
was to be done or the schema was made; and with a format table it is on record, if
there is a record. -/
theorem migrate_ok (h : (db.migrate location).result = .ok ()) :
    ((db.migrate location).db = db ∨ Made db (db.migrate location).db) ∧
      ((db.migrate location).db.format.isSome → (db.migrate location).db.Migrated) := by
  rcases migrate_cases h with ⟨-, hnone, hsame⟩ |
    ⟨ledger, hsucceeded, ⟨known, hrecorded, hknown, hgenuine, hsame⟩ | ⟨hunknown, hcreated⟩⟩
  · rw [hsame]
    refine ⟨Or.inl rfl, fun hformat => ⟨hformat, ?_, ?_⟩⟩
    · intro ledger hledger
      cases hnone.symm.trans hledger
    · intro ledger hledger
      cases hnone.symm.trans hledger
  · rw [hsame]
    exact ⟨Or.inl rfl, fun hformat =>
      migrated_of_ledger hformat hrecorded hsucceeded hknown hgenuine⟩
  · obtain ⟨⟨hnothing, hschema⟩, hrecorded⟩ := createSchema_made hcreated
    have hsucceeded' : (ledger ++ [schemaMigration]).any (!·.succeeded) = false := by
      rw [List.any_append, hsucceeded]
      rfl
    have hknown : (ledger ++ [schemaMigration]).find? (·.version = schemaMigration.version) =
        some schemaMigration := by
      rw [List.find?_append, hunknown]
      rfl
    exact ⟨Or.inr ⟨hnothing, hschema⟩, fun hformat =>
      migrated_of_ledger hformat hrecorded hsucceeded' hknown rfl⟩

/-! ## The check -/

/-- A total that was overwritten is read as what was written. -/
theorem totalSize_of_set {size : Nat} (hread : ∃ stored, before.totalSize = .ok stored)
    (hset : before.setTotalSize size = .ok ((), after)) :
    Kept before after ∧ after.totalSize = .ok size := by
  obtain ⟨recorded, hrecorded, rfl⟩ := setTotalSize_ok hset
  refine ⟨⟨rfl, recorded, hrecorded, Or.inr ⟨size, rfl⟩⟩, ?_⟩
  cases recorded with
  | nil =>
      obtain ⟨stored, hstored⟩ := hread
      simp [totalSize, hrecorded, answered, bind, Except.bind] at hstored
  | cons first rest =>
      rw [totalSize_of_recorded rfl, readSize, if_pos (Int.natCast_nonneg _), Int.toNat_natCast]

/-- What passes the check is left with totals that agree. -/
theorem opened_of_check {now fin : Progress} (h : checkAndRepair location now = .ok () fin) :
    Kept now.db fin.db ∧ fin.db.formatVersion = .ok (some currentFormat) ∧
      ∃ total, fin.db.totalSize = .ok total ∧ fin.db.computedTotalSize = .ok total := by
  obtain ⟨hversion, stored, computed, hstored, hcomputed, ⟨rfl, hsame⟩ | ⟨-, hset⟩⟩ :=
    checkAndRepair_ok h
  · rw [hsame]
    refine ⟨⟨rfl, ?_⟩, hversion, stored, hstored, hcomputed⟩
    cases hrecorded : now.db.globals with
    | none => simp [totalSize, hrecorded, answered, bind, Except.bind] at hstored
    | some recorded => exact ⟨recorded, rfl, Or.inl rfl⟩
  · obtain ⟨hkept, htotal⟩ := totalSize_of_set ⟨stored, hstored⟩ hset
    refine ⟨hkept, ?_, computed, htotal, ?_⟩
    · rw [hkept.frame]
      exact hversion
    · rw [hkept.frame]
      exact hcomputed

theorem isSome_of_formatVersion {version : Option Int} (h : db.formatVersion = .ok version) :
    db.format.isSome := by
  cases hformat : db.format with
  | none => simp [formatVersion, hformat, answered, bind, Except.bind] at h
  | some versions => rfl

/-- Where nothing was, the totals agree from the beginning. -/
theorem Made.agree (h : Made before after) :
    after.totalSize = .ok 0 ∧ after.computedTotalSize = .ok 0 := by
  rw [h.schema]
  exact ⟨rfl, rfl⟩

/-- **What an open store can rely on.** -/
theorem open_ok (h : (db.open location).result = .ok ()) : Opened db (db.open location).db := by
  unfold Db.open at h ⊢
  cases hmigrated : (db.migrate location).result with
  | error e => simp [hmigrated] at h
  | ok _ =>
      simp only [hmigrated] at h ⊢
      obtain ⟨fin, hcheck, hdb⟩ := transact_result_ok h
      obtain ⟨htables, hrecord⟩ := migrate_ok hmigrated
      obtain ⟨hkept, hversion, hagree⟩ := opened_of_check hcheck
      have hformat : fin.db.format = (db.migrate location).db.format := by rw [hkept.frame]
      have hledger : fin.db.ledger = (db.migrate location).db.ledger := by rw [hkept.frame]
      have hrecorded := hrecord (hformat ▸ isSome_of_formatVersion hversion)
      rw [hdb]
      refine ⟨hrecorded.congr hformat hledger, hversion, hagree, ?_⟩
      rcases htables with hsame | hmade
      · rw [← hsame]
        exact Or.inl hkept
      · -- nothing is corrected in the tables that were just made
        obtain ⟨hstored, hcomputed⟩ := hmade.agree
        obtain ⟨-, stored, computed, hstored', hcomputed', ⟨-, hleft⟩ | ⟨hwrong, -⟩⟩ :=
          checkAndRepair_ok hcheck
        · rw [hleft]
          exact Or.inr hmade
        · rw [hstored] at hstored'
          rw [hcomputed] at hcomputed'
          exact absurd ((Except.ok.inj hstored').symm.trans (Except.ok.inj hcomputed')) hwrong

/-- **Opening is done once and for all.** -/
theorem Opened.open_again (h : Opened before after) (location : String) :
    after.open location = ⟨.ok (), after, (after.migrate location).log⟩ := by
  obtain ⟨total, hstored, hcomputed⟩ := h.agree
  have hcheck : checkAndRepair location { db := after } = .ok () { db := after } :=
    checkAndRepair_of_right h.version hstored hcomputed
  rw [h.migrated.open_of_ok hcheck, List.append_nil]

/-- Where the schema is there, at most its lack of a ledger is reported. -/
theorem Migrated.log_migrate (h : db.Migrated) {event : Event}
    (hevent : event ∈ (db.migrate location).log) : event = .migrationsSkipped location := by
  rw [h.migrate_eq] at hevent
  simp only at hevent
  split at hevent
  · cases hevent
  · exact List.mem_singleton.mp hevent

end Db

namespace Machine

variable {m m' found : Machine} {location : Location} {number : Nat} {log : List Event}

/-- Every database that a file holds is one of the machine's. -/
def HasDatabases (m : Machine) : Prop :=
  ∀ path n, m.disk.find? path = some (.database n) → n < m.databases.length

/-- What is found or made at a location is one of the machine's databases. -/
theorem HasDatabases.locateOrMake (h : m.HasDatabases)
    (hfound : m.locateOrMake location = (some number, found)) :
    number < found.databases.length := by
  cases hfile : inFile? location with
  | none =>
      simp only [Machine.locateOrMake, locate, hfile, newDatabase] at hfound
      cases hfound
      simp
  | some text =>
      obtain ⟨path, disk, -, hdisk, -, ⟨hthere, rfl⟩ | ⟨rfl, rfl⟩⟩ :=
        locateOrMake_file hfile hfound
      · exact h path number ((Disk.extends_makeDirectories hdisk).database path number hthere)
      · simp

/-- A store that is opened is found or made at its location, and opened there. -/
theorem openStore_ok (h : m.openStore location = (.ok number, m', log)) :
    ∃ found, m.locateOrMake location = (some number, found) ∧
      ((found.database number).open location.text).result = .ok () ∧
      m' = found.setDatabase number ((found.database number).open location.text).db := by
  unfold openStore at h
  split at h
  · cases h
  · rename_i n found hfound
    simp only [Prod.mk.injEq] at h
    obtain ⟨hresult, rfl, -⟩ := h
    cases hopened : ((found.database n).open location.text).result with
    | error e => simp [hopened, Except.map] at hresult
    | ok _ =>
        rw [hopened] at hresult
        obtain rfl : n = number := Except.ok.inj hresult
        exact ⟨found, hfound, hopened, rfl⟩

/-- A store that is in no file is always made anew, in the same way. -/
theorem openStore_memory (m : Machine) (hfile : inFile? location = none) :
    m.openStore location = (.ok m.databases.length,
      { m with databases := m.databases ++ [Db.fresh] }, []) := by
  have hopened : Db.empty.open location.text = ⟨.ok (), .fresh, []⟩ := rfl
  simp [openStore, Machine.locateOrMake, locate, hfile, newDatabase, database, setDatabase,
    hopened, Except.map]

/-- A store in a file that was opened is found there, and opening it does nothing. -/
theorem openStore_of_holds {text : String} {before : Db} (hfile : inFile? location = some text)
    (hholds : m.disk.Holds m.workDirectory text number)
    (hopened : Db.Opened before (m.database number)) :
    m.openStore location =
      (.ok number, m, ((m.database number).migrate location.text).log) := by
  have hsame : m.databases.set number (m.database number) = m.databases := set_getD_self _ _ _
  simp only [openStore, locateOrMake_of_holds hfile hholds, hopened.open_again, setDatabase, hsame]
  rfl

/-- **Opening a store.**  Whatever is at the location, if the store is opened, it has
what can be relied on; and it is opened again, with the same rows in all tables and
without a repair.  In a file it is then the same database, and the whole machine is
as it was. -/
theorem openStore_again (hm : m.HasDatabases)
    (h : m.openStore location = (.ok number, m', log)) :
    (∃ found, m.locateOrMake location = (some number, found) ∧
      Db.Opened (found.database number) (m'.database number)) ∧
    ∃ number' m'' log', m'.openStore location = (.ok number', m'', log') ∧
      m''.database number' = m'.database number ∧
      ((inFile? location).isSome → number' = number ∧ m'' = m') ∧
      ∀ event ∈ log', ∀ place stored computed, event ≠ .totalRepaired place stored computed := by
  obtain ⟨found, hfound, hresult, hmachine⟩ := openStore_ok h
  have hbound := hm.locateOrMake hfound
  have hdb : m'.database number = ((found.database number).open location.text).db := by
    simp [hmachine, database, setDatabase, hbound]
  have hopened : Db.Opened (found.database number) (m'.database number) :=
    hdb ▸ Db.open_ok hresult
  refine ⟨⟨found, hfound, hopened⟩, ?_⟩
  cases hfile : inFile? location with
  | none =>
      refine ⟨_, _, _, m'.openStore_memory hfile, ?_, by simp, by simp⟩
      rw [openStore_memory m hfile] at h
      cases h
      simp [database]
  | some text =>
      have hholds : m'.disk.Holds m'.workDirectory text number := by
        have := holds_of_locateOrMake hfile hfound
        rw [hmachine]
        exact this
      refine ⟨_, _, _, openStore_of_holds hfile hholds hopened, rfl, fun _ => ⟨rfl, rfl⟩, ?_⟩
      intro event hevent place stored computed heq
      rw [hopened.migrated.log_migrate hevent] at heq
      cases heq

/-- A file of somebody else, with two versions, two totals and no ledger: both totals
are corrected, once. -/
theorem openStore_again_foreign :
    let db : Db := { Db.single "a" 5 [1, 2, 3, 4, 5] 3 with
      format := some [1, 7], globals := some [.integer 3, .integer 9], ledger := none }
    let m : Machine :=
      { disk := { nodes := [(["x"], .database 0)] }, workDirectory := [], tempDirectory := "tmp",
        databases := [db] }
    let m' := (m.openStore (.file "x")).2.1
    m.HasDatabases ∧ (m.openStore (.file "x")).1 = .ok 0 ∧
      (m.openStore (.file "x")).2.2 = [.migrationsSkipped "x", .totalRepaired "x" 3 5] ∧
      m'.database 0 = { db with globals := some [.integer 5, .integer 5] } ∧
      (∃ found, m.locateOrMake (.file "x") = (some 0, found) ∧
        Db.Opened (found.database 0) (m'.database 0)) ∧
      ∃ log, m'.openStore (.file "x") = (.ok 0, m', log) ∧
        ∀ event ∈ log, ∀ place stored computed, event ≠ .totalRepaired place stored computed := by
  intro db m m'
  have hm : m.HasDatabases := by
    intro path n hfound
    simp only [m, Disk.find?] at hfound
    split at hfound
    · cases hfound
    · simp only [List.find?_cons, List.find?_nil] at hfound
      split at hfound
      · cases hfound
        decide
      · cases hfound
  have hok : (m.openStore (.file "x")).1 = .ok 0 := by
    subst m db
    cbv
  have hopen : m.openStore (.file "x") = (.ok 0, m', (m.openStore (.file "x")).2.2) := by
    rw [← hok]
  obtain ⟨hopened, number, m'', log, hagain, -, hfile, hlog⟩ := openStore_again hm hopen
  obtain ⟨rfl, rfl⟩ := hfile (by decide)
  refine ⟨hm, hok, ?_, ?_, hopened, log, hagain, hlog⟩
  · subst m db
    cbv
  · subst m' m db
    cbv

end Machine

end BlobCache
