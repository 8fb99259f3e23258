import BlobCache.Proofs.Effect
import BlobCache.Proofs.Guarantee
import BlobCache.Proofs.Rounding

/-!
# The drift of the recorded total

Of a database somebody else has changed the recorded total may be wrong.  However
much it is off, the operations of a store keep it off by the same amount, as long as
it is a 64-bit integer: what they add to the sum of all sizes or take from it, they
add to the recorded total or take from it (`Db.Drifted.lasting`).  This is so after each
operation, between the rows of a deletion, and after a transaction, however it ends
(`Db.totals_of_course`): what outlasts each change of a row outlasts whole sequences of
operations (`Db.Lasting.stages`).

In a store that was opened the drift is zero.  Then the two totals are the same as
long as they can be read, and that is the case if no size is negative.  A negative
size, which no cache writes, can lead to a total below zero, and such a total is
refused (`Db.totals_unread_of_negative`).
-/

namespace BlobCache

/-- An integer in the range of 64 bits. -/
def Amount.InRange : Amount → Prop
  | .integer n => Fits n
  | .real _ => False

instance : DecidablePred Amount.InRange
  | .integer n => inferInstanceAs (Decidable (Fits n))
  | .real _ => inferInstanceAs (Decidable False)

namespace Db

/-- All recorded totals are 64-bit integers. -/
def InRange (db : Db) : Prop := ∀ t ∈ db.globals.getD [], t.InRange

instance : DecidablePred InRange := fun db =>
  inferInstanceAs (Decidable (∀ t ∈ db.globals.getD [], t.InRange))

/-- The databases that a deletion passes through, row by row. -/
def dwindling (db : Db) : List EntryRow → List Db
  | [] => []
  | e :: rest =>
    match db.deleteEntry e with
    | some mid => mid :: mid.dwindling rest
    | none => []

end Db

/-- The databases that an operation passes through; the last is what it leaves. -/
def Step.course (step : Step) (db : Db) : List Db :=
  db.dwindling (db.entryRows.filter step.doomed) ++ [(step.run db).2]

/-- Operations in one transaction, and how it ends: by the outcome of some work, or
because it is dropped. -/
structure Batch where
  steps : List Step
  outcome? : Option (Except StoreError Unit)

/-- What a transaction leaves. -/
def Batch.leave (batch : Batch) (db : Db) : Db :=
  let tx : Transaction := { Transaction.start db with now := db.after batch.steps }
  match batch.outcome? with
  | some outcome => (settle tx outcome).db
  | none => tx.drop

namespace Db

/-- The databases that operations pass through. -/
def stages (db : Db) : List Step → List Db
  | [] => []
  | step :: rest => step.course db ++ (step.run db).2.stages rest

/-- The databases that are there in the course of some transactions, also in the
middle of one. -/
def course (db : Db) : List Batch → List Db
  | [] => [db]
  | batch :: rest => db :: db.stages batch.steps ++ (batch.leave db).course rest

variable {db db' : Db} {low drift : Int}

/-- `P` outlasts each change of a row that leaves a database in which `R` holds. -/
structure Lasting (P R : Db → Prop) : Prop where
  congr : ∀ {db db' : Db}, P db → db'.entries = db.entries → db'.globals = db.globals → P db'
  deleted : ∀ {db db' : Db} {e : EntryRow}, P db → e ∈ db.entryRows →
    db.deleteEntry e = some db' → R db' → P db'
  added : ∀ {db db' : Db} {row : EntryRow}, P db → 0 ≤ row.size → row.size ≤ largest →
    EntryAdded row db db' → R db' → P db'
  moved : ∀ {db db' : Db} {e : EntryRow} {top : Int}, P db → EntryMoved e top db db' → P db'

namespace Lasting

variable {P R : Db → Prop}

/-- What outlasts each change is there between the rows of a deletion. -/
theorem dwindling {l : List EntryRow} (h : Lasting P R) (hdb : P db)
    (hl : l.Sublist db.entryRows) (hR : ∀ mid ∈ db.dwindling l, R mid) :
    (∀ mid ∈ db.dwindling l, P mid) ∧
      ∀ after, l.foldlM Db.deleteEntry db = some after → P after := by
  induction l generalizing db with
  | nil =>
      refine ⟨by simp [Db.dwindling], ?_⟩
      rintro after ⟨⟩
      exact hdb
  | cons e l ih =>
      have he : e ∈ db.entryRows := hl.subset (by simp)
      simp only [Db.dwindling] at hR ⊢
      cases hmid : db.deleteEntry e with
      | none => simp [List.foldlM_cons, hmid]
      | some mid =>
          simp only [hmid, List.forall_mem_cons] at hR ⊢
          have hkept := h.deleted hdb he hmid hR.1
          have hl' : l.Sublist mid.entryRows := by
            rw [deleteEntry_eq he hmid, entryRows_without]
            exact sublist_of_cons hl
          obtain ⟨hmids, hafter⟩ := ih hkept hl' hR.2
          refine ⟨⟨hkept, hmids⟩, ?_⟩
          intro after hfold
          rw [List.foldlM_cons, hmid] at hfold
          exact hafter after hfold

/-- **What outlasts each change outlasts an operation.** -/
theorem step {step : Step} (h : Lasting P R) (hdb : P db)
    (hstep : ∀ size, step ≠ .setTotalSize size) (hR : ∀ mid ∈ step.course db, R mid) :
    ∀ mid ∈ step.course db, P mid := by
  simp only [Step.course, List.forall_mem_append, List.forall_mem_singleton] at hR ⊢
  obtain ⟨hmids, hafter⟩ := h.dwindling hdb List.filter_sublist hR.1
  refine ⟨hmids, ?_⟩
  have hlast := hR.2
  have heffect := step.effect db
  generalize (step.run db).2 = after at hlast heffect ⊢
  cases heffect with
  | nothing => exact hdb
  | totalSet => exact absurd rfl (hstep _)
  | entryAdded hsize hadded => exact h.added hdb (Int.natCast_nonneg _) hsize hadded hlast
  | entryMoved hmoved => exact h.moved hdb hmoved
  | blobAdded _ hadded => exact h.congr hdb (by rw [hadded.frame]) (by rw [hadded.frame])
  | chunkAdded hadded => exact h.congr hdb (by rw [hadded.frame]) (by rw [hadded.frame])
  | deleted hdeleted => exact hafter _ (deleteEntries_eq_some hdeleted).2

/-- What outlasts each change outlasts a sequence of operations. -/
theorem stages {steps : List Step} (h : Lasting P R) (hdb : P db)
    (hsteps : ∀ step ∈ steps, ∀ size, step ≠ .setTotalSize size)
    (hR : ∀ mid ∈ db.stages steps, R mid) :
    (∀ mid ∈ db.stages steps, P mid) ∧ P (db.after steps) := by
  induction steps generalizing db with
  | nil => exact ⟨by simp [Db.stages], hdb⟩
  | cons step rest ih =>
      simp only [Db.stages, List.forall_mem_append, List.forall_mem_cons] at hR hsteps ⊢
      have hstep := h.step hdb hsteps.1 hR.1
      obtain ⟨hmids, hafter⟩ := ih (hstep _ (by simp [Step.course])) hsteps.2 hR.2
      exact ⟨⟨hstep, hmids⟩, hafter⟩

end Lasting

/-! ## What a change of a row does to a single total -/

/-- What goes with one entry is its size. -/
theorem held_without_one {e : EntryRow} (he : e ∈ db.entryRows) :
    (db.without (· = e)).held = db.held - e.size := by
  rw [held_without, filter_eq_of_mem he]
  simp

/-- Deleting an entry subtracts its size from the total. -/
theorem globals_without_one {e : EntryRow} {total : Amount} (he : e ∈ db.entryRows)
    (h : db.globals = some [total]) :
    (db.without (· = e)).globals = some [(total.sub e.size).stored] := by
  simp [without, filter_eq_of_mem he, h]

/-- Inserting an entry adds its size to the total. -/
theorem EntryAdded.globals_eq {row : EntryRow} {total : Amount} (hadded : EntryAdded row db db')
    (h : db.globals = some [total]) :
    db'.globals = some [(total.add row.size).stored] := by
  rw [hadded.totals, h]
  rfl

/-- The one recorded total is off by `drift`, and no size is below `low`. -/
structure Drifted (low drift : Int) (db : Db) : Prop where
  entries : db.entries.isSome
  sizes : ∀ e ∈ db.entryRows, low ≤ e.size ∧ e.size ≤ largest
  recorded : db.globals = some [.integer (db.held + drift)]
  fits : Fits (db.held + drift)

namespace Drifted

theorem congr (h : db.Drifted low drift) (hentries : db'.entries = db.entries)
    (hglobals : db'.globals = db.globals) : db'.Drifted low drift := by
  have hrows := entryRows_congr hentries
  have hheld := held_congr hrows
  refine ⟨hentries ▸ h.entries, hrows ▸ h.sizes, ?_, hheld ▸ h.fits⟩
  rw [hglobals, hheld]
  exact h.recorded

/-- A total that was an integer and is one still has changed by what was to be
added or taken. -/
theorem of_total (hentries : db'.entries.isSome)
    (hsizes : ∀ e ∈ db'.entryRows, low ≤ e.size ∧ e.size ≤ largest) {total : Amount}
    (hrecorded : db'.globals = some [total]) (hrange : db'.InRange)
    (htotal : ∀ n, total = .integer n → n = db'.held + drift) : db'.Drifted low drift := by
  have hin : total.InRange := hrange total (by simp [hrecorded])
  cases total with
  | real n => exact hin.elim
  | integer n =>
      obtain rfl := htotal n rfl
      exact ⟨hentries, hsizes, hrecorded, hin⟩

/-- Deleting an entry takes its size from the total. -/
theorem deleteEntry {e : EntryRow} (h : db.Drifted low drift) (hlow : smallest ≤ low)
    (he : e ∈ db.entryRows) (hdeleted : db.deleteEntry e = some db') (hrange : db'.InRange) :
    db'.Drifted low drift := by
  obtain rfl := deleteEntry_eq he hdeleted
  have hsize : Fits e.size := ⟨Int.le_trans hlow (h.sizes e he).1, (h.sizes e he).2⟩
  refine of_total ?_ ?_ (globals_without_one he h.recorded) hrange ?_
  · simpa [without] using h.entries
  · intro x hx
    rw [entryRows_without] at hx
    exact h.sizes x (List.mem_filter.mp hx).1
  · intro n hn
    rw [Amount.eq_of_stored_sub h.fits hsize hn, held_without_one he]
    omega

/-- A new entry adds its size to the total. -/
theorem entryAdded {row : EntryRow} (h : db.Drifted low drift) (hlow : smallest ≤ low)
    (hsize : low ≤ row.size ∧ row.size ≤ largest) (hadded : EntryAdded row db db')
    (hrange : db'.InRange) : db'.Drifted low drift := by
  refine of_total hadded.there (hadded.forall_rows.mpr ⟨hsize, h.sizes⟩)
    (hadded.globals_eq h.recorded) hrange ?_
  intro n hn
  rw [Amount.eq_of_stored_add h.fits ⟨Int.le_trans hlow hsize.1, hsize.2⟩ hn, hadded.held_eq]
  omega

/-- An entry that moves leaves the total alone. -/
theorem entryMoved {e : EntryRow} {top : Int} (h : db.Drifted low drift)
    (hmoved : EntryMoved e top db db') : db'.Drifted low drift := by
  have hglobals := hmoved.globals_eq
  refine ⟨hmoved.there, ?_, ?_, hmoved.held_eq ▸ h.fits⟩
  · exact hmoved.forall_rows.mpr ⟨fun x hx _ => h.sizes x hx, h.sizes e hmoved.mem⟩
  · rw [hglobals, hmoved.held_eq]
    exact h.recorded

/-- **The drift outlasts each change** that leaves the recorded total in range. -/
theorem lasting (hlow : smallest ≤ low ∧ low ≤ 0) : Lasting (Drifted low drift) InRange where
  congr h hentries hglobals := h.congr hentries hglobals
  deleted h he hdeleted hrange := h.deleteEntry hlow.1 he hdeleted hrange
  added h hsize hsize' hadded hrange :=
    h.entryAdded hlow.1 ⟨Int.le_trans hlow.2 hsize, hsize'⟩ hadded hrange
  moved h hmoved := h.entryMoved hmoved

end Drifted

/-- A transaction leaves what its operations leave, or what was there. -/
theorem leave_cases (batch : Batch) (db : Db) :
    batch.leave db = db.after batch.steps ∨ batch.leave db = db := by
  unfold Batch.leave
  simp only
  split
  · rename_i outcome _
    cases outcome with
    | ok _ => exact Or.inl rfl
    | error e => exact Or.inr rfl
  · exact Or.inr rfl

/-- **Transactions keep the drift**, however they end. -/
theorem Drifted.course {batches : List Batch} (h : db.Drifted low drift)
    (hlow : smallest ≤ low ∧ low ≤ 0)
    (hsteps : ∀ batch ∈ batches, ∀ step ∈ batch.steps, ∀ size, step ≠ .setTotalSize size)
    (hrange : ∀ mid ∈ db.course batches, mid.InRange) :
    ∀ mid ∈ db.course batches, mid.Drifted low drift := by
  induction batches generalizing db with
  | nil =>
      simp only [Db.course, List.forall_mem_singleton]
      exact h
  | cons batch rest ih =>
      simp only [Db.course, List.cons_append, List.forall_mem_cons, List.forall_mem_append]
        at hrange hsteps ⊢
      obtain ⟨hmids, hafter⟩ := (lasting hlow).stages h hsteps.1 hrange.2.1
      refine ⟨h, hmids, ih ?_ hsteps.2 hrange.2.2⟩
      rcases leave_cases batch db with hleave | hleave
      · rw [hleave]
        exact hafter
      · rw [hleave]
        exact h

/-- Without drift and without negative sizes both totals can be read, and are the
same. -/
theorem Drifted.totals_eq (h : db.Drifted 0 0) :
    ∃ total, db.totalSize = .ok total ∧ db.computedTotalSize = .ok total := by
  have hsizes : ∀ e ∈ db.entryRows, 0 ≤ e.size := fun e he => (h.sizes e he).1
  have hnonneg : 0 ≤ db.held := sum_sizes_nonneg hsizes
  have hrecorded := h.recorded
  have hfits := h.fits
  rw [Int.add_zero] at hrecorded hfits
  refine ⟨db.held.toNat, ?_, computedTotalSize_of_nonneg h.entries hsizes hfits.2⟩
  rw [totalSize_of_recorded hrecorded, readSize, if_pos hnonneg]

/-- A store that was opened has no drift. -/
theorem Opened.recorded_eq {before : Db} {n : Int} (h : Opened before db)
    (hrecorded : db.globals = some [.integer n]) : n = db.held := by
  obtain ⟨total, hstored, hcomputed⟩ := h.agree
  simp only [computedTotalSize, except_bind_eq_ok, answered_eq_ok] at hcomputed
  obtain ⟨entries, hentries, sum, hsum, hread⟩ := hcomputed
  have hheld : sum = db.held := by
    rw [checkedSum_eq_some hsum, Int.zero_add, ← entryRows_of_some hentries]
    rfl
  rw [totalSize_of_recorded hrecorded, readSize] at hstored
  rw [readSize] at hread
  split at hstored
  · split at hread
    · have := (Except.ok.inj hstored).trans (Except.ok.inj hread).symm
      omega
    · cases hread
  · cases hstored

/-- **The recorded total and the sum of all sizes differ by the same amount all the
time**, as long as the recorded total is a 64-bit integer, also between the rows of a
deletion.  In a store that was opened without negative sizes both can be read all the
time, and are the same. -/
theorem totals_of_course {n : Int} (hentries : db.entries.isSome)
    (hsizes : ∀ e ∈ db.entryRows, Fits e.size) (hrecorded : db.globals = some [.integer n])
    {batches : List Batch}
    (hsteps : ∀ batch ∈ batches, ∀ step ∈ batch.steps, ∀ size, step ≠ .setTotalSize size)
    (hrange : ∀ mid ∈ db.course batches, mid.InRange) :
    (∀ mid ∈ db.course batches, ∃ k, mid.globals = some [.integer k] ∧
      k - mid.held = n - db.held) ∧
    ∀ before location, (Db.open location before).result = .ok () →
      db = (Db.open location before).db → (∀ e ∈ db.entryRows, 0 ≤ e.size) →
      ∀ mid ∈ db.course batches, ∃ total, mid.totalSize = .ok total ∧
        mid.computedTotalSize = .ok total := by
  have hfits : Fits n := by
    have hstart : db ∈ db.course batches := by
      cases batches with
      | nil => exact List.mem_singleton.mpr rfl
      | cons batch rest => exact List.mem_cons_self ..
    exact hrange db hstart (.integer n) (by simp [hrecorded])
  have hdrifted (low : Int) (hlow : ∀ e ∈ db.entryRows, low ≤ e.size) :
      db.Drifted low (n - db.held) := by
    refine ⟨hentries, fun e he => ⟨hlow e he, (hsizes e he).2⟩, ?_, ?_⟩
    · rw [hrecorded, add_sub_cancel]
    · rwa [add_sub_cancel]
  constructor
  · intro mid hmid
    have h := (hdrifted smallest fun e he => (hsizes e he).1).course (by decide) hsteps hrange
      mid hmid
    exact ⟨_, h.recorded, by omega⟩
  · intro before location hopen hdb hnonneg mid hmid
    have hsame : n - db.held = 0 := by
      rw [(hdb ▸ open_ok hopen : Opened before db).recorded_eq hrecorded]
      omega
    exact ((hsame ▸ hdrifted 0 hnonneg).course (by decide) hsteps hrange mid hmid).totals_eq

/-- Two entries share a blob, a key is refused the second time, an entry moves and the
other is deleted; then a deletion is dropped and another one rolled back.  A recorded
total that was off by 2 stays so. -/
theorem totals_of_course_shared :
    let db := (Db.empty.open "x").db
    let off : Db := { db with globals := some [.integer 2] }
    let batches : List Batch :=
      [⟨[.addBlob 5, .addEntry "a" 5 1, .addEntry "b" 4 1, .addEntry "a" 3 1, .promote 1,
          .deleteEntriesThrough 2], some (.ok ())⟩,
        ⟨[.deleteEntryByKey "a", .totalSize], none⟩,
        ⟨[.deleteEntriesThrough 9], some (.error .database)⟩]
    (off.course batches).getLast?.map (fun mid => (mid.globals, mid.held)) =
        some (some [.integer 7], 5) ∧
      (∀ mid ∈ off.course batches, ∃ k, mid.globals = some [.integer k] ∧ k - mid.held = 2) ∧
      ∀ mid ∈ db.course batches, ∃ total, mid.totalSize = .ok total ∧
        mid.computedTotalSize = .ok total := by
  intro db off batches
  have hsteps : ∀ batch ∈ batches, ∀ step ∈ batch.steps, ∀ size, step ≠ .setTotalSize size := by
    simp [batches]
  have hoff := totals_of_course (show off.entries.isSome = true from rfl) (by decide +kernel) rfl
    hsteps (by decide +kernel)
  have hdb := totals_of_course (show db.entries.isSome = true from rfl) (by decide +kernel) rfl
    hsteps (by decide +kernel)
  exact ⟨by decide +kernel, hoff.1, hdb.2 .empty "x" rfl rfl (by decide +kernel)⟩

/-- With a negative size, a store that was opened can get a total below zero, and this
is not read. -/
theorem totals_unread_of_negative :
    ¬ ∀ (before : Db) (location : String) (batches : List Batch),
      let db := (before.open location).db
      (before.open location).result = .ok () → db.Whole → (∃ n, db.globals = some [.integer n]) →
      (∀ batch ∈ batches, ∀ step ∈ batch.steps, ∀ size, step ≠ .setTotalSize size) →
      (∀ mid ∈ db.course batches, mid.InRange ∧ Fits mid.held) →
      ∀ mid ∈ db.course batches, ∃ total, mid.totalSize = .ok total ∧
        mid.computedTotalSize = .ok total := by
  intro hclaim
  let before : Db := { fresh with
    globals := some [.integer 2]
    blobs := some ⟨[⟨1, 5⟩], by decide, by decide⟩
    entries := some ⟨[⟨1, "b", -3, 1⟩, ⟨2, "a", 5, 1⟩], by decide, by decide⟩ }
  let batch : Batch := ⟨[.deleteEntryByKey "a"], some (.ok ())⟩
  let after := batch.leave (before.open "x").db
  have hsteps : ∀ b ∈ [batch], ∀ step ∈ b.steps, ∀ size, step ≠ .setTotalSize size := by
    simp [batch]
  have hwhole : (before.open "x").db.Whole := ⟨rfl, rfl, rfl, rfl, rfl⟩
  obtain ⟨total, htotal, -⟩ := hclaim before "x" [batch] rfl hwhole ⟨2, rfl⟩ hsteps
    (by decide +kernel) after (by decide +kernel)
  have hunread : after.totalSize = .error (.invalidData "size") := by decide +kernel
  cases htotal.symm.trans hunread

end Db

end BlobCache
