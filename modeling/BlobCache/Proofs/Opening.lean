import BlobCache.Proofs.Budget

/-!
# What opening makes of a recorded total

Opening asks for the schema, the format version and sizes that add up; a database
that has them is `Db.Usable`, whatever its recorded total.  If the total is the sum
of all sizes, opening does nothing (`Db.Usable.open_of_right`), and if it is another
count of bytes, it is corrected and nothing else is changed.

A recorded total is read as a count of bytes before it is compared.  So one that is
below zero is never corrected: the store is not opened, and the database stays as it
is (`Db.open_of_recorded`).
-/

namespace BlobCache

namespace Db

variable {db : Db}

/-- The schema is there, and its migration on record, if there is a record. -/
structure Migrated (db : Db) : Prop where
  format : db.format.isSome
  succeeded : ∀ ledger, db.ledger = some ledger → ∀ known ∈ ledger, known.succeeded = true
  genuine : ∀ ledger, db.ledger = some ledger →
    ∃ known, ledger.find? (·.version = schemaMigration.version) = some known ∧
      known.genuine = true

theorem migrated_of_schema (hformat : db.format.isSome)
    (hledger : db.ledger = some [schemaMigration]) : db.Migrated := by
  refine ⟨hformat, ?_, ?_⟩
  · intro ledger h known hknown
    obtain rfl := Option.some.inj (hledger.symm.trans h)
    rw [List.mem_singleton.mp hknown]
    rfl
  · intro ledger h
    obtain rfl := Option.some.inj (hledger.symm.trans h)
    exact ⟨schemaMigration, rfl, rfl⟩

/-- The schema is a matter of the format table and the ledger. -/
theorem Migrated.congr {db' : Db} (h : db.Migrated) (hformat : db'.format = db.format)
    (hledger : db'.ledger = db.ledger) : db'.Migrated :=
  ⟨hformat ▸ h.format, hledger ▸ h.succeeded, hledger ▸ h.genuine⟩

/-- Everything that opening asks for but the recorded total. -/
structure Usable (db : Db) : Prop where
  migrated : db.Migrated
  version : db.formatVersion = .ok (some currentFormat)
  entries : db.entries.isSome
  sizes : ∀ e ∈ db.entryRows, 0 ≤ e.size
  fits : db.held ≤ largest

/-- Where the schema is there, migrating does nothing. -/
theorem Migrated.migrate_eq (h : db.Migrated) (location : String) :
    db.migrate location =
      ⟨.ok (), db, if db.ledger.isSome then [] else [.migrationsSkipped location]⟩ := by
  cases hledger : db.ledger with
  | none => simp [migrate, h.format, hledger]
  | some ledger =>
      obtain ⟨known, hknown, hgenuine⟩ := h.genuine ledger hledger
      have hsucceeded : ledger.any (!·.succeeded) = false := by
        rw [List.any_eq_false]
        intro known hmem
        simp [h.succeeded ledger hledger known hmem]
      have hsame : ({ db with ledger := some ledger } : Db) = db := by rw [← hledger]
      simp [migrate, hledger, hsucceeded, hknown, hgenuine, hsame]

theorem Usable.held_nonneg (h : db.Usable) : 0 ≤ db.held := sum_sizes_nonneg h.sizes

/-- Sizes that are not negative add up to the bytes held. -/
theorem computedTotalSize_of_nonneg (hthere : db.entries.isSome)
    (hsizes : ∀ e ∈ db.entryRows, 0 ≤ e.size) (hfits : db.held ≤ largest) :
    db.computedTotalSize = .ok db.held.toNat := by
  obtain ⟨entries, hentries⟩ := Option.isSome_iff_exists.mp hthere
  have hrows := entryRows_of_some hentries
  have hnonneg : 0 ≤ db.held := sum_sizes_nonneg hsizes
  have hheld : (entries.rows.map (·.size)).sum = db.held := by rw [← hrows]; rfl
  have hsum : checkedSum 0 (entries.rows.map (·.size)) = some db.held := by
    rw [checkedSum_of_nonneg ?_ (Int.le_refl 0) (by rw [Int.zero_add, hheld]; exact hfits),
      Int.zero_add, hheld]
    intro n hn
    obtain ⟨e, he, rfl⟩ := List.mem_map.mp hn
    exact hsizes e (hrows ▸ he)
  simp [computedTotalSize, hentries, hsum, answered, readSize, hnonneg, bind, Except.bind]

theorem Usable.computedTotalSize_eq (h : db.Usable) :
    db.computedTotalSize = .ok db.held.toNat :=
  computedTotalSize_of_nonneg h.entries h.sizes h.fits

end Db

/-! ## The check -/

section Check

variable {location : String} {now : Progress} {stored computed : Nat}

theorem checkAndRepair_of_right (hversion : now.db.formatVersion = .ok (some currentFormat))
    (hstored : now.db.totalSize = .ok computed)
    (hcomputed : now.db.computedTotalSize = .ok computed) :
    checkAndRepair location now = .ok () now := by
  simp [checkAndRepair, hversion, hstored, hcomputed]

theorem checkAndRepair_of_wrong {db : Db}
    (hversion : now.db.formatVersion = .ok (some currentFormat))
    (hstored : now.db.totalSize = .ok stored)
    (hcomputed : now.db.computedTotalSize = .ok computed) (hwrong : stored ≠ computed)
    (hset : now.db.setTotalSize computed = .ok ((), db)) :
    checkAndRepair location now =
      .ok () { db, log := now.log ++ [.totalRepaired location stored computed] } := by
  simp [checkAndRepair, hversion, hstored, hcomputed, hwrong, hset]

/-- A recorded total that cannot be read is not compared with anything. -/
theorem checkAndRepair_of_unread {e : StoreError}
    (hversion : now.db.formatVersion = .ok (some currentFormat))
    (hstored : now.db.totalSize = .error e) :
    checkAndRepair location now = .error e now := by
  rw [checkAndRepair, Work.bind_of_ok (Work.query_ok hversion), if_neg (by simp)]
  exact Work.bind_of_error (Work.query_error hstored)

end Check

namespace Db

variable {db : Db}

section Migrated

variable {location : String} {fin : Progress}

/-- Where the schema is there, the check decides. -/
theorem Migrated.open_of_ok (h : db.Migrated)
    (hcheck : checkAndRepair location { db } = .ok () fin) :
    db.open location = ⟨.ok (), fin.db, (db.migrate location).log ++ fin.log⟩ := by
  have hdone : transact (checkAndRepair location) db = ⟨.ok (), fin.db, fin.log⟩ :=
    transact_ok hcheck
  simp only [Db.open, h.migrate_eq, hdone]

theorem Migrated.open_of_error {e : StoreError} (h : db.Migrated)
    (hcheck : checkAndRepair location { db } = .error e fin) :
    db.open location = ⟨.error e, db, (db.migrate location).log ++ fin.log⟩ := by
  have hdone : transact (checkAndRepair location) db = ⟨.error e, db, fin.log⟩ :=
    transact_of_error hcheck
  simp only [Db.open, h.migrate_eq, hdone]

end Migrated

/-- Where the recorded total is right, opening does nothing. -/
theorem Usable.open_of_right (h : db.Usable) (location : String)
    (hright : db.totalSize = .ok db.held.toNat) :
    db.open location = ⟨.ok (), db, (db.migrate location).log⟩ := by
  have hcheck : checkAndRepair location { db } = .ok () { db } :=
    checkAndRepair_of_right h.version hright h.computedTotalSize_eq
  rw [h.migrated.open_of_ok hcheck, List.append_nil]

theorem totalSize_of_recorded {n : Int} {rest : List Amount}
    (h : db.globals = some (.integer n :: rest)) : db.totalSize = readSize "size" n := by
  simp [totalSize, h, answered, bind, Except.bind]

/-- A recorded total that is not negative is corrected if it is wrong. -/
theorem Usable.open_of_count {n : Int} (h : db.Usable) (hadmits : db.admits .updateTotal = true)
    (hrecorded : db.globals = some [.integer n]) (hn : 0 ≤ n) (location : String) :
    db.open location = ⟨.ok (), { db with globals := some [.integer db.held] },
      (db.migrate location).log ++
        if n = db.held then [] else [.totalRepaired location n.toNat db.held.toNat]⟩ := by
  have hnonneg := h.held_nonneg
  have htotal : db.totalSize = .ok n.toNat := by
    rw [totalSize_of_recorded hrecorded, readSize, if_pos hn]
  by_cases hright : n = db.held
  · have hsame : ({ db with globals := some [.integer db.held] } : Db) = db := by
      rw [← hright, ← hrecorded]
    rw [hright] at htotal
    rw [if_pos hright, List.append_nil, hsame]
    exact h.open_of_right location htotal
  · have hwrong : n.toNat ≠ db.held.toNat := by omega
    have hstored : storedSize db.held.toNat = .ok db.held := by
      rw [storedSize_eq_ok, Int.toNat_of_nonneg hnonneg]
      exact ⟨h.fits, rfl⟩
    have hset : db.setTotalSize db.held.toNat =
        .ok ((), { db with globals := some [.integer db.held] }) := by
      simp [setTotalSize, hstored, mapTotals, hrecorded, hadmits, answered, bind, Except.bind]
    have hcheck : checkAndRepair location { db } = .ok () _ :=
      checkAndRepair_of_wrong h.version htotal h.computedTotalSize_eq hwrong hset
    rw [if_neg hright]
    exact h.migrated.open_of_ok hcheck

/-- With a recorded total below zero a store is not opened. -/
theorem Usable.open_of_negative {n : Int} (h : db.Usable)
    (hrecorded : db.globals = some [.integer n]) (hn : n < 0) (location : String) :
    db.open location = ⟨.error (.invalidData "size"), db, (db.migrate location).log⟩ := by
  have htotal : db.totalSize = .error (.invalidData "size") := by
    rw [totalSize_of_recorded hrecorded, readSize, if_neg (Int.not_le.mpr hn)]
  have hcheck : checkAndRepair location { db } = .error (.invalidData "size") { db } :=
    checkAndRepair_of_unread h.version htotal
  rw [h.migrated.open_of_error hcheck, List.append_nil]

/-- **What opening makes of a recorded total.**  One that is not negative is
corrected if it is not the sum of all sizes, and nothing else is changed.  With one
that is negative the store is not opened, and nothing is corrected. -/
theorem open_of_recorded {n : Int} (h : db.Usable) (hadmits : db.admits .updateTotal = true)
    (hrecorded : db.globals = some [.integer n]) (location : String) :
    let opened := db.open location
    (0 ≤ n → opened.result = .ok () ∧ opened.db = { db with globals := some [.integer db.held] } ∧
      opened.db.totalSize = .ok db.held.toNat ∧
      opened.db.computedTotalSize = .ok db.held.toNat ∧
      opened.log = (db.migrate location).log ++
        if n = db.held then [] else [.totalRepaired location n.toNat db.held.toNat]) ∧
    (n < 0 → opened.result = .error (.invalidData "size") ∧ opened.db = db) := by
  intro opened
  constructor
  · intro hn
    have hopened : opened = _ := h.open_of_count hadmits hrecorded hn location
    rw [hopened]
    refine ⟨rfl, rfl, ?_, h.computedTotalSize_eq, rfl⟩
    rw [totalSize_of_recorded rfl, readSize, if_pos h.held_nonneg]
  · intro hn
    have hopened : opened = _ := h.open_of_negative hrecorded hn location
    rw [hopened]
    exact ⟨rfl, rfl⟩

/-- Where 5 bytes are held, a recorded total of 3 is corrected, and with one of -5
the store is not opened. -/
theorem open_of_recorded_five :
    let kept (n : Int) : Db := .single "a" 5 [1, 2, 3, 4, 5] n
    (∀ n, (kept n).Usable ∧ (kept n).admits .updateTotal = true) ∧
      ((kept 3).open "x").result = .ok () ∧ ((kept 3).open "x").db = kept 5 ∧
      ((kept (-5)).open "x").result = .error (.invalidData "size") := by
  intro kept
  have hkept : ∀ n, (kept n).Usable ∧ (kept n).admits .updateTotal = true := by
    intro n
    refine ⟨⟨migrated_of_schema rfl rfl, rfl, rfl, ?_, ?_⟩, rfl⟩
    · intro e he
      obtain rfl := List.mem_singleton.mp he
      decide
    · show ([5] : List Int).sum ≤ largest
      decide
  obtain ⟨hcorrected, -⟩ := open_of_recorded (hkept 3).1 (hkept 3).2 rfl "x"
  obtain ⟨-, hrefused⟩ := open_of_recorded (hkept (-5)).1 (hkept (-5)).2 rfl "x"
  obtain ⟨hresult, hdb, -⟩ := hcorrected (by decide)
  exact ⟨hkept, hresult, hdb, (hrefused (by decide)).1⟩

/-- A database made from the schema is not always opened: not with a recorded total
of -1. -/
theorem open_refuses_negative :
    ¬ ∀ (db : Db) (n : Int) (location : String), db.Whole → db.Usable → smallest ≤ n →
      n ≤ largest → db.globals = some [.integer n] → (db.open location).result = .ok () := by
  intro hopens
  let db : Db :=
    { format := some [1], globals := some [.integer (-1)], blobs := some ∅, chunks := some ∅,
      entries := some ∅, ledger := some [schemaMigration] }
  have hdb : db.Usable := ⟨migrated_of_schema rfl rfl, rfl, rfl, by decide, by decide⟩
  have hok := hopens db (-1) "x" ⟨rfl, rfl, rfl, rfl, rfl⟩ hdb (by decide) (by decide) rfl
  rw [hdb.open_of_negative rfl (by decide) "x"] at hok
  cases hok

end Db

end BlobCache
