import BlobCache.Proofs.Guarantee

/-!
# A database that is not opened

A store looks at the format version and at the totals of a database only after the
schema was brought up to date, and what was done for the schema is not undone when it
finds them wrong.  No table is left behind nevertheless.  The schema is made only
where none of its tables is, and what was just made passes the check; so a database
that is refused has all its tables and rows as they were.  The one thing it may have
got is a ledger without rows, and only if it had neither a ledger nor a format table
(`Db.open_error`).

Where there is a format table, nothing is made at all, whatever comes of opening the
database (`Db.open_of_format`).  In particular somebody else's database, which has no
ledger, does not get one.
-/

namespace BlobCache

namespace Db

variable {db before after : Db} {location : String} {e : StoreError}

/-- Where the schema cannot be brought up to date, no more is made than a ledger. -/
theorem migrate_error (h : (db.migrate location).result = .error e) :
    e = .migration ∧ (db.format.isSome → db.ledger.isSome) ∧
      (db.migrate location).db = { db with ledger := some (db.ledger.getD []) } := by
  unfold migrate at h ⊢
  split
  · rename_i hskip
    simp [hskip] at h
  · rename_i hskip
    rw [if_neg hskip] at h
    have hledger : db.format.isSome → db.ledger.isSome := by
      simpa [Option.isSome_iff_ne_none] using hskip
    simp only at h ⊢
    split
    · rename_i hfailed
      rw [if_pos hfailed] at h
      exact ⟨(Except.error.inj h).symm, hledger, rfl⟩
    · rename_i hfailed
      rw [if_neg hfailed] at h
      split
      · rename_i known hknown
        simp only [hknown] at h
        split at h
        · cases h
        · exact ⟨(Except.error.inj h).symm, hledger, rfl⟩
      · rename_i hunknown
        simp only [hunknown] at h
        split
        · rename_i created hcreated
          simp [hcreated] at h
        · rename_i hnone
          simp only [hnone] at h
          exact ⟨(Except.error.inj h).symm, hledger, rfl⟩

/-- What was just made passes the check. -/
theorem Made.checkAndRepair_eq (h : Made before after) :
    checkAndRepair location { db := after } = .ok () { db := after } := by
  obtain ⟨hstored, hcomputed⟩ := h.agree
  refine checkAndRepair_of_right ?_ hstored hcomputed
  rw [h.schema]
  rfl

/-- **A database that is refused has its tables and rows as they were**, and at most
an empty ledger more, where there was neither a ledger nor a format table. -/
theorem open_error (h : (db.open location).result = .error e) :
    (db.open location).db = db ∨
      e = .migration ∧ db.format = none ∧ db.ledger = none ∧
        (db.open location).db = { db with ledger := some [] } := by
  unfold Db.open at h ⊢
  cases hmigrated : (db.migrate location).result with
  | error cause =>
      simp only [hmigrated] at h ⊢
      obtain rfl := Except.error.inj h
      obtain ⟨rfl, hformat, hdb⟩ := migrate_error hmigrated
      rw [hdb]
      cases hledger : db.ledger with
      | some ledger =>
          left
          rw [Option.getD_some, ← hledger]
      | none =>
          right
          refine ⟨rfl, ?_, rfl, rfl⟩
          rw [hledger] at hformat
          simpa using hformat
  | ok _ =>
      simp only [hmigrated] at h ⊢
      have hundone := transact_error h
      rcases (migrate_ok hmigrated).1 with hsame | hmade
      · exact Or.inl (hundone.trans hsame)
      · have hdone : transact (checkAndRepair location) (db.migrate location).db =
            ⟨.ok (), (db.migrate location).db, []⟩ := transact_ok hmade.checkAndRepair_eq
        rw [hdone] at h
        cases h

/-- **Where there is a format table, no table is made**, be there a ledger or not. -/
theorem open_of_format (hformat : db.format.isSome) (location : String) :
    (db.open location).db = { db with globals := (db.open location).db.globals } ∧
      (db.open location).db.globals.isSome = db.globals.isSome := by
  cases hresult : (db.open location).result with
  | error cause =>
      rcases open_error hresult with hsame | ⟨-, hnone, -⟩
      · rw [hsame]
        exact ⟨rfl, rfl⟩
      · simp [hnone] at hformat
  | ok _ =>
      rcases (open_ok hresult).tables with hkept | hmade
      · refine ⟨hkept.frame, ?_⟩
        obtain ⟨recorded, hbefore, hsame | ⟨n, hset⟩⟩ := hkept.totals
        · rw [hbefore, hsame]
        · rw [hbefore, hset]
          rfl
      · simp [hmade.nothing.1] at hformat

end Db

namespace Machine

variable {m found : Machine} {location : Location} {number : Nat}

/-- A machine has the databases that its files are said to hold. -/
theorem hasDatabases_of_nodes
    (h : ∀ node ∈ m.disk.nodes, ∀ n, node.2 = .database n → n < m.databases.length) :
    m.HasDatabases := by
  intro path n hfound
  unfold Disk.find? at hfound
  split at hfound
  · cases hfound
  · obtain ⟨node, hnode, hholds⟩ := Option.map_eq_some_iff.mp hfound
    exact h node (List.mem_of_find?_eq_some hnode) n hholds

/-- Looking for a database changes none; a new one has no tables. -/
theorem database_locateOrMake (hfound : m.locateOrMake location = (some number, found)) :
    found.database number = m.database number := by
  have hnew (made : Machine) (hmade : made.databases = m.databases ++ [.empty]) :
      made.database m.databases.length = m.database m.databases.length := by
    simp [database, hmade]
  cases hfile : inFile? location with
  | none =>
      simp only [locateOrMake, locate, hfile, newDatabase] at hfound
      cases hfound
      exact hnew _ rfl
  | some text =>
      obtain ⟨path, disk, -, -, -, ⟨-, rfl⟩ | ⟨rfl, rfl⟩⟩ := locateOrMake_file hfile hfound
      · rfl
      · exact hnew _ rfl

/-- **A database that is refused is left alone.**  For whatever cause the store is not
opened, the database at the location has the same tables and rows as before, and at
most an empty ledger more, where it had neither a ledger nor a format table.  With a
format table and no ledger it gets no ledger and no other table, even if the store is
opened. -/
theorem openStore_refused (hm : m.HasDatabases)
    (hfound : m.locateOrMake location = (some number, found)) :
    let before := m.database number
    let opened := m.openStore location
    let after := opened.2.1.database number
    (∀ e, opened.1 = .error e → after = before ∨
      e = .migration ∧ before.format = none ∧ before.ledger = none ∧
        after = { before with ledger := some [] }) ∧
    (before.format.isSome → before.ledger = none →
      after.ledger = none ∧ after.tableNames = before.tableNames ∧
        after = { before with globals := after.globals }) := by
  intro before opened after
  have hopened : opened = (((before.open location.text).result.map fun _ => number),
      found.setDatabase number (before.open location.text).db,
      (before.open location.text).log) := by
    simp only [opened, openStore, hfound, database_locateOrMake hfound, before]
  have hafter : after = (before.open location.text).db := by
    simp [after, hopened, database, setDatabase, hm.locateOrMake hfound]
  rw [hafter]
  constructor
  · intro e he
    apply Db.open_error
    rw [hopened] at he
    cases hresult : (before.open location.text).result with
    | error cause =>
        rw [hresult] at he
        exact congrArg Except.error (Except.error.inj he)
    | ok _ =>
        rw [hresult] at he
        cases he
  · intro hformat hledger
    obtain ⟨hframe, hglobals⟩ := Db.open_of_format hformat location.text
    refine ⟨?_, ?_, hframe⟩
    · rw [hframe]
      exact hledger
    · rw [hframe]
      simp only [Db.tableNames, hglobals]

/-- A database with one table of the schema gets a ledger when it is refused; somebody
else's, with version 2 and no ledger, gets nothing. -/
theorem openStore_refused_both :
    let half : Db := { globals := some [.integer 4] }
    let other : Db := { Db.single "a" 1 [7] 1 with format := some [2], ledger := none }
    let m : Machine :=
      { disk := { nodes := [(["x"], .database 0), (["y"], .database 1)] }, workDirectory := [],
        tempDirectory := "tmp", databases := [half, other] }
    (m.openStore (.file "x")).1 = .error .migration ∧
      (m.openStore (.file "x")).2.1.database 0 = { half with ledger := some [] } ∧
      (m.openStore (.file "y")).1 = .error (.unsupportedVersion (some 2) 1) ∧
      (m.openStore (.file "y")).2.1.database 1 = other ∧
      ((m.openStore (.file "y")).2.1.database 1).tableNames = other.tableNames := by
  intro half other m
  have hm : m.HasDatabases := hasDatabases_of_nodes (by
    intro node hnode n hn
    simp only [m, List.mem_cons, List.not_mem_nil, or_false] at hnode
    rcases hnode with rfl | rfl <;> cases hn <;> decide)
  have hx : m.locateOrMake (.file "x") = (some 0, (m.locateOrMake (.file "x")).2) := by
    rw [← show (m.locateOrMake (.file "x")).1 = some 0 by subst m other half; cbv]
  have hy : m.locateOrMake (.file "y") = (some 1, (m.locateOrMake (.file "y")).2) := by
    rw [← show (m.locateOrMake (.file "y")).1 = some 1 by subst m other half; cbv]
  have hfailed : (m.openStore (.file "x")).1 = .error .migration := by
    subst m other half
    cbv
  have hversion : (m.openStore (.file "y")).1 = .error (.unsupportedVersion (some 2) 1) := by
    subst m other half
    cbv
  have hledger : ((m.openStore (.file "x")).2.1.database 0).ledger = some [] := by
    subst m other half
    cbv
  obtain ⟨hhalf, -⟩ := openStore_refused hm hx
  obtain ⟨hother, hnone⟩ := openStore_refused hm hy
  refine ⟨hfailed, ?_, hversion, ?_, (hnone rfl rfl).2.1⟩
  · rcases hhalf _ hfailed with hsame | ⟨-, -, -, hmade⟩
    · rw [hsame] at hledger
      cases hledger
    · exact hmade
  · rcases hother _ hversion with hsame | ⟨hcause, -⟩
    · exact hsame
    · cases hcause

end Machine

end BlobCache
