import BlobCache.Store.Transaction
import Mathlib

/-!
# Work that goes through

When does a piece of work end well, and with what?  There is one answer for each
way to make work (`bind_ok`, `query_ok_iff`, `change_ok_iff`, …), so that a
longer piece is taken apart, or put together, step by step.  A transaction ends
well exactly when its work does (`transact_result_ok`).
-/

namespace BlobCache

@[simp] theorem answered_eq_ok {α : Type} {o : Option α} {a : α} :
    answered o = .ok a ↔ o = some a := by
  cases o <;> simp [answered]

@[simp] theorem storedSize_eq_ok {size : Nat} {n : Int} :
    storedSize size = .ok n ↔ (size : Int) ≤ largest ∧ n = size := by
  unfold storedSize
  by_cases h : (size : Int) ≤ largest
  · simp [h, eq_comm]
  · simp [h]

/-- A value computed in two steps. -/
theorem except_bind_eq_ok {ε α β : Type} {x : Except ε α} {f : α → Except ε β} {b : β} :
    (x >>= f) = .ok b ↔ ∃ a, x = .ok a ∧ f a = .ok b := by
  cases x with
  | error e => simp [bind, Except.bind]
  | ok a => simp [bind, Except.bind]

namespace Work

variable {ε α β : Type} {now fin : Progress}

/-- One piece of work after another. -/
@[simp] theorem bind_ok {x : Work ε α} {f : α → Work ε β} {b : β} :
    (x >>= f) now = .ok b fin ↔ ∃ a mid, x now = .ok a mid ∧ f a mid = .ok b fin := by
  simp only [bind, EStateM.bind]
  cases x now with
  | error e mid => simp
  | ok a mid =>
      simp only [EStateM.Result.ok.injEq]
      constructor
      · intro h
        exact ⟨a, mid, ⟨rfl, rfl⟩, h⟩
      · rintro ⟨_, _, ⟨rfl, rfl⟩, h⟩
        exact h

@[simp] theorem map_ok {x : Work ε α} {f : α → β} {b : β} :
    (f <$> x) now = .ok b fin ↔ ∃ a, x now = .ok a fin ∧ f a = b := by
  simp only [Functor.map, EStateM.map]
  cases x now with
  | error e mid => simp
  | ok a mid =>
      simp only [EStateM.Result.ok.injEq]
      constructor
      · rintro ⟨hb, hmid⟩
        exact ⟨a, ⟨rfl, hmid⟩, hb⟩
      · rintro ⟨_, ⟨rfl, hmid⟩, hb⟩
        exact ⟨hb, hmid⟩

@[simp] theorem pure_ok {a b : α} :
    (pure a : Work ε α) now = .ok b fin ↔ a = b ∧ now = fin := by
  simp [pure, EStateM.pure]

@[simp] theorem throw_ok {e : ε} {a : α} : ¬ (throw e : Work ε α) now = .ok a fin := by
  simp [throw, throwThe, MonadExceptOf.throw, EStateM.throw]

@[simp] theorem query_ok_iff {wrap : StoreError → ε} {read : Db → Except StoreError α} {a : α} :
    query wrap read now = .ok a fin ↔ read now.db = .ok a ∧ now = fin := by
  unfold query
  cases read now.db <;> simp

@[simp] theorem change_ok_iff {wrap : StoreError → ε}
    {write : Db → Except StoreError (α × Db)} {a : α} :
    change wrap write now = .ok a fin ↔
      ∃ db, write now.db = .ok (a, db) ∧ fin = { now with db } := by
  unfold change
  cases write now.db with
  | error e => simp
  | ok made =>
      obtain ⟨b, db⟩ := made
      simp only [EStateM.Result.ok.injEq, Except.ok.injEq, Prod.mk.injEq]
      constructor
      · rintro ⟨rfl, rfl⟩
        exact ⟨db, ⟨rfl, rfl⟩, rfl⟩
      · rintro ⟨db', ⟨rfl, rfl⟩, rfl⟩
        exact ⟨rfl, rfl⟩

@[simp] theorem report_ok {event : Event} {u : Unit} :
    (report event : Work ε Unit) now = .ok u fin ↔
      fin = { now with log := now.log ++ [event] } := by
  simp [report, eq_comm]

/-- Work goes on from where its first part ended. -/
theorem bind_of_ok {x : Work ε α} {f : α → Work ε β} {a : α} {mid : Progress}
    (h : x now = .ok a mid) : (x >>= f) now = f a mid := by
  simp only [bind, EStateM.bind, h]

/-- Where its first part fails, work fails. -/
theorem bind_of_error {x : Work ε α} {f : α → Work ε β} {e : ε}
    (h : x now = .error e fin) : (x >>= f) now = .error e fin := by
  simp only [bind, EStateM.bind, h]

end Work

/-- A transaction whose work fails is undone, but not its reports. -/
theorem transact_of_error {ε α : Type} [Failure ε] {work : Work ε α} {db : Db} {e : ε}
    {fin : Progress} (h : work { db } = .error e fin) :
    transact work db = ⟨.error e, db, fin.log⟩ := by
  have hrun : work.run { db } = .error e fin := h
  simp [transact, settle, hrun]

/-- A transaction ends well when its work does, and keeps what the work made. -/
theorem transact_result_ok {ε α : Type} [Failure ε] {work : Work ε α} {db : Db} {a : α}
    (h : (transact work db).result = .ok a) :
    ∃ fin, work { db } = .ok a fin ∧ (transact work db).db = fin.db := by
  cases hw : work.run { db } with
  | ok b fin =>
      rw [transact_ok hw] at h ⊢
      cases h
      exact ⟨fin, hw, rfl⟩
  | error e fin => simp [transact, settle, hw] at h

/-- Either a transaction ends well, or it leaves the database as it was. -/
theorem transact_cases {ε α : Type} [Failure ε] (work : Work ε α) (db : Db) :
    (∃ a fin, work { db } = .ok a fin ∧ (transact work db).result = .ok a ∧
      (transact work db).db = fin.db) ∨
    ∃ e, (transact work db).result = .error e ∧ (transact work db).db = db := by
  cases hr : (transact work db).result with
  | ok a =>
      obtain ⟨fin, hw, hdb⟩ := transact_result_ok hr
      exact Or.inl ⟨a, fin, hw, rfl, hdb⟩
  | error e => exact Or.inr ⟨e, rfl, transact_error hr⟩

end BlobCache
