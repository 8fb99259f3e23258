import BlobCache.Event
import BlobCache.Store.Records

/-!
# Transactions

Work on a database happens inside a transaction.  While it runs, the tables
change step by step and events are reported; a failure leaves the tables
wherever they are at that point.  `settle` ends the transaction by the outcome
of the work: success keeps the changes, failure goes back to the tables as they
were at the beginning.  Events stay reported either way.

Whoever holds the connection can end a transaction behind the back of its
owner.  Nothing is left to commit or to roll back then, and `settle` says so.
-/

namespace BlobCache

/-- The tables of an unfinished transaction and what was reported so far. -/
structure Progress where
  db : Db
  log : List Event := []
deriving DecidableEq

/-- Work inside a transaction that may fail with `ε`. -/
abbrev Work (ε α : Type) := EStateM ε Progress α

namespace Work

variable {ε α : Type}

/-- Read from the tables; `wrap` says what a failure means to the reader. -/
def query (wrap : StoreError → ε) (read : Db → Except StoreError α) : Work ε α :=
  fun now =>
    match read now.db with
    | .ok a => .ok a now
    | .error e => .error (wrap e) now

/-- Change the tables; a refused change leaves them as they are. -/
def change (wrap : StoreError → ε) (write : Db → Except StoreError (α × Db)) :
    Work ε α :=
  fun now =>
    match write now.db with
    | .ok (a, db) => .ok a { now with db }
    | .error e => .error (wrap e) now

/-- Report an event. -/
def report (event : Event) : Work ε Unit :=
  fun now => .ok () { now with log := now.log ++ [event] }

variable {wrap : StoreError → ε} {now : Progress} {a : α} {e : StoreError}

theorem query_ok {read : Db → Except StoreError α} (h : read now.db = .ok a) :
    query wrap read now = .ok a now := by
  simp only [query, h]

theorem query_error {read : Db → Except StoreError α} (h : read now.db = .error e) :
    query wrap read now = .error (wrap e) now := by
  simp only [query, h]

theorem change_ok {write : Db → Except StoreError (α × Db)} {db : Db}
    (h : write now.db = .ok (a, db)) :
    change wrap write now = .ok a { now with db } := by
  simp only [change, h]

theorem change_error {write : Db → Except StoreError (α × Db)}
    (h : write now.db = .error e) :
    change wrap write now = .error (wrap e) now := by
  simp only [change, h]

end Work

/-- What became of an operation: its result, the database afterwards and the
events reported on the way. -/
structure Outcome (ε α : Type) where
  result : Except ε α
  db : Db
  log : List Event

/-- Errors that a store's own errors can be part of. -/
class Failure (ε : Type) where
  ofStore : StoreError → ε
  message : ε → String

instance : Failure StoreError := ⟨id, StoreError.message⟩

/-- A transaction: the tables it started from, the tables now, and whether it
was ended behind its owner's back. -/
structure Transaction where
  before : Db
  now : Db
  ended : Bool := false

namespace Transaction

/-- Start a transaction. -/
def start (db : Db) : Transaction := { before := db, now := db }

/-- End the transaction with its changes, without telling its owner. -/
def commitBehind (tx : Transaction) : Transaction :=
  { before := tx.now, now := tx.now, ended := true }

/-- End the transaction without its changes, without telling its owner. -/
def rollbackBehind (tx : Transaction) : Transaction :=
  { before := tx.before, now := tx.before, ended := true }

/-- What is left when the owner lets go of the transaction. -/
def drop (tx : Transaction) : Db := tx.before

end Transaction

/-- Finish a transaction by the outcome of the work done in it.  A commit that
has nothing to commit is a `database` error; a rollback that has nothing to
roll back is only reported. -/
def settle {ε α : Type} [Failure ε] (tx : Transaction) (outcome : Except ε α) :
    Outcome ε α :=
  match outcome with
  | .ok a =>
    if tx.ended then ⟨.error (Failure.ofStore .database), tx.now, []⟩
    else ⟨.ok a, tx.now, []⟩
  | .error e =>
    ⟨.error e, tx.before,
      if tx.ended then [.rollbackFailed (Failure.message e)] else []⟩

/-- Do `work` in a transaction of its own. -/
def transact {ε α : Type} [Failure ε] (work : Work ε α) (db : Db) : Outcome ε α :=
  let (result, finish) : Except ε α × Progress :=
    match work.run { db } with
    | .ok a finish => (.ok a, finish)
    | .error e finish => (.error e, finish)
  let settled := settle { before := db, now := finish.db } result
  { settled with log := finish.log ++ settled.log }

/-- A transaction whose work fails leaves the database as it was. -/
theorem transact_error {ε α : Type} [Failure ε] {work : Work ε α} {db : Db} {e : ε}
    (h : (transact work db).result = .error e) : (transact work db).db = db := by
  cases hw : work.run { db } with
  | ok a finish => simp [transact, settle, hw] at h
  | error e' finish => simp [transact, settle, hw]

/-- A transaction whose work succeeds keeps what the work made. -/
theorem transact_ok {ε α : Type} [Failure ε] {work : Work ε α} {db : Db} {a : α}
    {finish : Progress} (h : work.run { db } = .ok a finish) :
    transact work db = ⟨.ok a, finish.db, finish.log⟩ := by
  simp [transact, settle, h]

end BlobCache
