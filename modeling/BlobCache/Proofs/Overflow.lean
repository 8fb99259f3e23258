import BlobCache.Proofs.Drift

/-!
# Totals beyond the range of 64 bits

The sum of all sizes can leave the range of 64 bits, for sizes are only bounded one by
one.  The total that is computed from the entries cannot be read then, and can be read
again as soon as the sum is back in range (`Db.Sized.computedTotalSize_eq`).  The
recorded total goes on as a double in the meantime.  It cannot be read either when the
sum leaves the range for the first time, and it stays right beyond the range as long as
all numbers are doubles themselves (`Db.totals_of_edits`).  With other sizes it loses
bits, and when the sum comes back it is an integer that is plausible and wrong
(`Db.totals_apart`).
-/

namespace BlobCache

namespace Amount

/-- A sum as it is recorded if nothing gets lost: an integer as far as 64 bits reach, and
a double beyond. -/
def exact (n : Int) : Amount := if n ≤ largest then integer n else real n

theorem exact_of_le {n : Int} (h : n ≤ largest) : exact n = integer n := if_pos h

theorem exact_of_lt {n : Int} (h : largest < n) : exact n = real n := if_neg (Int.not_le.mpr h)

/-- The largest 64-bit integer is no double. -/
theorem roundInt_largest : roundInt largest ≠ largest := by decide +kernel

/-- Doubles are added exactly as long as their sum is a double. -/
theorem stored_add_exact {m n : Int} (hm : 0 ≤ m) (hn : 0 ≤ n) (hrm : roundInt m = m)
    (hrn : roundInt n = n) (hsum : roundInt (m + n) = m + n) :
    ((exact m).add n).stored = exact (m + n) := by
  by_cases hfits : m + n ≤ largest
  · have hrange : Fits (m + n) := ⟨by simp only [smallest]; omega, hfits⟩
    rw [exact_of_le (by omega), add_integer hrange, exact_of_le hfits, stored_integer]
  · have hadd : (exact m).add n = real (m + n) := by
      by_cases hmfits : m ≤ largest
      · rw [exact_of_le hmfits, add, ofInt, if_neg fun h => hfits h.2, hrm, hrn, hsum]
      · rw [exact_of_lt (Int.not_le.mp hmfits), add, hrn, hsum]
    rw [hadd, exact_of_lt (Int.not_le.mp hfits), stored, if_neg (by omega)]

/-- Doubles are subtracted exactly as long as their difference is a double. -/
theorem stored_sub_exact {m n : Int} (hn : 0 ≤ n) (hle : n ≤ m) (hrn : roundInt n = n)
    (hdiff : roundInt (m - n) = m - n) : ((exact m).sub n).stored = exact (m - n) := by
  by_cases hmfits : m ≤ largest
  · have hrange : Fits (m - n) := ⟨by simp only [smallest]; omega, by omega⟩
    rw [exact_of_le hmfits, sub_integer hrange, exact_of_le hrange.2, stored_integer]
  · -- a double that comes back to the range cannot be its upper end
    have hne : m - n ≠ largest := fun heq => roundInt_largest (heq ▸ hdiff)
    rw [exact_of_lt (Int.not_le.mp hmfits), sub, hrn, hdiff, stored, exact]
    by_cases hfits : m - n ≤ largest
    · rw [if_pos ⟨by simp only [smallest]; omega, by omega⟩, if_pos hfits]
    · rw [if_neg (by omega), if_neg hfits]

end Amount

/-- A column of sizes that are not negative is not added up if its sum leaves the range. -/
theorem checkedSum_of_overflow {l : List Int} {start : Int} (hl : ∀ n ∈ l, 0 ≤ n)
    (h0 : 0 ≤ start) (hstart : start ≤ largest) (hs : largest < start + l.sum) :
    checkedSum start l = none := by
  induction l generalizing start with
  | nil =>
      rw [List.sum_nil] at hs
      omega
  | cons n rest ih =>
      have hn := hl n (by simp)
      have hrest : ∀ m ∈ rest, 0 ≤ m := by
        intro m hm
        exact hl m (List.mem_cons_of_mem _ hm)
      rw [List.sum_cons] at hs
      rw [checkedSum]
      split
      · rename_i hfits
        exact ih hrest (by omega) hfits.2 (by omega)
      · rfl

/-- Whether an operation changes the entries or adds a blob. -/
def Step.edits : Step → Bool
  | .addBlob _ | .addEntry .. | .promote _ | .deleteEntryByKey _ | .deleteEntriesThrough _ => true
  | _ => false

namespace Db

/-- What there is to be read of the sum of all sizes: the sum, or an error if 64 bits
cannot hold it. -/
def heldTotal (db : Db) : Except StoreError Nat :=
  if db.held ≤ largest then .ok db.held.toNat else .error .database

/-- All sizes, and their sum, are doubles. -/
def Exact (db : Db) : Prop :=
  (∀ e ∈ db.entryRows, roundInt e.size = e.size) ∧ roundInt db.held = db.held

instance : DecidablePred Exact := fun db =>
  inferInstanceAs (Decidable ((∀ e ∈ db.entryRows, _) ∧ roundInt db.held = db.held))

variable {db db' : Db}

/-! ## Sizes in range -/

/-- No size is negative or larger than 64 bits can hold. -/
structure Sized (db : Db) : Prop where
  entries : db.entries.isSome
  sizes : ∀ e ∈ db.entryRows, 0 ≤ e.size ∧ e.size ≤ largest

namespace Sized

theorem held_nonneg (h : db.Sized) : 0 ≤ db.held :=
  sum_sizes_nonneg fun e he => (h.sizes e he).1

/-- No entry is larger than all together. -/
theorem size_le_held (h : db.Sized) {e : EntryRow} (he : e ∈ db.entryRows) :
    e.size ≤ db.held := by
  have hnonneg : ∀ n ∈ db.entrySizes, 0 ≤ n := by
    intro n hn
    obtain ⟨x, hx, rfl⟩ := List.mem_map.mp hn
    exact (h.sizes x hx).1
  exact List.single_le_sum hnonneg _ (List.mem_map.mpr ⟨e, he, rfl⟩)

theorem congr (h : db.Sized) (hentries : db'.entries = db.entries) : db'.Sized := by
  have hrows := entryRows_congr hentries
  exact ⟨hentries ▸ h.entries, hrows ▸ h.sizes⟩

theorem without (h : db.Sized) (p : EntryRow → Bool) : (db.without p).Sized := by
  refine ⟨by simpa [Db.without] using h.entries, ?_⟩
  intro e he
  rw [entryRows_without] at he
  exact h.sizes e (List.mem_filter.mp he).1

theorem entryAdded {row : EntryRow} (h : db.Sized) (hrow : 0 ≤ row.size ∧ row.size ≤ largest)
    (hadded : EntryAdded row db db') : db'.Sized :=
  ⟨hadded.there, hadded.forall_rows.mpr ⟨hrow, h.sizes⟩⟩

theorem entryMoved {e : EntryRow} {top : Int} (h : db.Sized) (hmoved : EntryMoved e top db db') :
    db'.Sized :=
  ⟨hmoved.there, hmoved.forall_rows.mpr ⟨fun x hx _ => h.sizes x hx, h.sizes e hmoved.mem⟩⟩

/-- Sizes stay in range, whatever happens to their sum. -/
theorem lasting : Lasting Sized fun _ => True where
  congr h hentries _ := h.congr hentries
  deleted h he hdeleted _ := deleteEntry_eq he hdeleted ▸ h.without _
  added h hsize hsize' hadded _ := h.entryAdded ⟨hsize, hsize'⟩ hadded
  moved h hmoved := h.entryMoved hmoved

/-- **The computed total is never wrong.** -/
theorem computedTotalSize_eq (h : db.Sized) : db.computedTotalSize = db.heldTotal := by
  have hnonneg : ∀ e ∈ db.entryRows, 0 ≤ e.size := fun e he => (h.sizes e he).1
  rw [heldTotal]
  split
  · rename_i hfits
    exact computedTotalSize_of_nonneg h.entries hnonneg hfits
  · rename_i hover
    obtain ⟨entries, hentries⟩ := Option.isSome_iff_exists.mp h.entries
    have hrows := entryRows_of_some hentries
    have hnone : checkedSum 0 (entries.rows.map (·.size)) = none := by
      rw [← hrows]
      refine checkedSum_of_overflow ?_ (Int.le_refl 0) (by decide) ?_
      · intro n hn
        obtain ⟨e, he, rfl⟩ := List.mem_map.mp hn
        exact hnonneg e he
      · rw [Int.zero_add]
        exact Int.not_le.mp hover
    simp [computedTotalSize, hentries, hnone, answered, bind, Except.bind]

end Sized

/-! ## The recorded total -/

/-- The recorded total is the sum of all sizes, and nothing of it got lost. -/
structure Recorded (db : Db) : Prop extends Sized db where
  recorded : db.globals = some [.exact db.held]

/-- A recorded total that cannot be read if the sum is out of range, and is the sum if not. -/
def Tells (db : Db) : Prop :=
  if db.held ≤ largest then db.globals = some [.integer db.held]
  else ∃ k, db.globals = some [.real k]

theorem totalSize_of_tells (hsized : db.Sized) (h : db.Tells) : db.totalSize = db.heldTotal := by
  have hnonneg := hsized.held_nonneg
  unfold Tells at h
  rw [heldTotal]
  split at h
  · rename_i hfits
    rw [totalSize_of_recorded h, readSize, if_pos hnonneg, if_pos hfits]
  · rename_i hover
    obtain ⟨k, hk⟩ := h
    simp [totalSize, hk, answered, bind, Except.bind, hover]

namespace Recorded

theorem tells (h : db.Recorded) : db.Tells := by
  have hrecorded := h.recorded
  unfold Tells
  rw [Amount.exact] at hrecorded
  split at hrecorded
  · rename_i hfits
    rwa [if_pos hfits]
  · rename_i hover
    rw [if_neg hover]
    exact ⟨_, hrecorded⟩

theorem congr (h : db.Recorded) (hentries : db'.entries = db.entries)
    (hglobals : db'.globals = db.globals) : db'.Recorded := by
  have hrows := entryRows_congr hentries
  refine ⟨h.toSized.congr hentries, ?_⟩
  rw [hglobals, held_congr hrows]
  exact h.recorded

theorem entryMoved {e : EntryRow} {top : Int} (h : db.Recorded)
    (hmoved : EntryMoved e top db db') : db'.Recorded := by
  refine ⟨h.toSized.entryMoved hmoved, ?_⟩
  rw [hmoved.globals_eq, hmoved.held_eq]
  exact h.recorded

/-- **While all numbers are doubles, nothing gets lost.** -/
theorem lasting : Lasting (fun db => db.Recorded ∧ db.Exact) Exact where
  congr := by
    rintro db db' ⟨h, hexact⟩ hentries hglobals
    have hrows := entryRows_congr hentries
    refine ⟨h.congr hentries hglobals, ?_⟩
    rwa [Exact, hrows, held_congr hrows]
  deleted := by
    rintro db db' e ⟨h, hexact⟩ he hdeleted hexact'
    obtain rfl := deleteEntry_eq he hdeleted
    have hdiff := hexact'.2
    rw [held_without_one he] at hdiff
    refine ⟨⟨h.toSized.without _, ?_⟩, hexact'⟩
    rw [globals_without_one he h.recorded, held_without_one he,
      Amount.stored_sub_exact (h.sizes e he).1 (h.size_le_held he) (hexact.1 e he) hdiff]
  added := by
    rintro db db' row ⟨h, hexact⟩ hsize hsize' hadded hexact'
    have hrow := (hadded.forall_rows.mp hexact'.1).1
    have hsum := hexact'.2
    rw [hadded.held_eq] at hsum
    refine ⟨⟨h.toSized.entryAdded ⟨hsize, hsize'⟩ hadded, ?_⟩, hexact'⟩
    rw [hadded.globals_eq h.recorded, hadded.held_eq,
      Amount.stored_add_exact h.held_nonneg hsize hexact.2 hrow hsum]
  moved := by
    rintro db db' e top ⟨h, hexact⟩ hmoved
    refine ⟨h.entryMoved hmoved, ?_, hmoved.held_eq ▸ hexact.2⟩
    exact hmoved.forall_rows.mpr ⟨fun x hx _ => hexact.1 x hx, hexact.1 e hmoved.mem⟩

/-- In range a deletion takes the sizes from the total exactly. -/
theorem without (h : db.Recorded) (hfits : db.held ≤ largest) (p : EntryRow → Bool) :
    (db.without p).Recorded := by
  have hle : ((db.entryRows.filter p).map (·.size)).sum ≤ db.held := by
    have hleft := (h.toSized.without p).held_nonneg
    rw [held_without] at hleft
    omega
  have hsizes : ∀ e ∈ db.entryRows.filter p, 0 ≤ e.size :=
    fun e he => (h.sizes e (List.mem_filter.mp he).1).1
  have hnonneg := sum_sizes_nonneg hsizes
  refine ⟨h.toSized.without p, ?_⟩
  rw [held_without, Amount.exact_of_le (by omega), ← Amount.foldl_sub hsizes hle hfits]
  simp [Db.without, h.recorded, Amount.exact_of_le hfits]

/-- A new entry may take the sum out of range; the recorded total shows it. -/
theorem tells_entryAdded {row : EntryRow} (h : db.Recorded) (hfits : db.held ≤ largest)
    (hsize : 0 ≤ row.size) (hadded : EntryAdded row db db') : db'.Tells := by
  have hglobals := hadded.globals_eq h.recorded
  have hnonneg := h.held_nonneg
  rw [Amount.exact_of_le hfits] at hglobals
  unfold Tells
  rw [hadded.held_eq]
  split
  · rename_i hrange
    rw [hglobals, Amount.add_integer ⟨by simp only [smallest]; omega, hrange⟩,
      Amount.stored_integer]
  · rename_i hover
    obtain ⟨k, hk⟩ := Amount.stored_add_of_overflow (m := db.held.toNat) (n := row.size.toNat)
      (by omega)
    rw [Int.toNat_of_nonneg hnonneg, Int.toNat_of_nonneg hsize] at hk
    exact ⟨k, by rw [hglobals, hk]⟩

/-- **From a sum in range an operation leads to a total that tells the sum**, or that it
is out of range. -/
theorem tells_run {step : Step} (h : db.Recorded) (hfits : db.held ≤ largest)
    (hstep : ∀ size, step ≠ .setTotalSize size) : (step.run db).2.Tells := by
  have heffect := step.effect db
  generalize (step.run db).2 = after at heffect ⊢
  cases heffect with
  | nothing => exact h.tells
  | totalSet => exact absurd rfl (hstep _)
  | entryAdded _ hadded => exact h.tells_entryAdded hfits (Int.natCast_nonneg _) hadded
  | entryMoved hmoved => exact (h.entryMoved hmoved).tells
  | blobAdded _ hadded => exact (h.congr (by rw [hadded.frame]) (by rw [hadded.frame])).tells
  | chunkAdded hadded => exact (h.congr (by rw [hadded.frame]) (by rw [hadded.frame])).tells
  | deleted hdeleted => exact (deleteEntries_eq hdeleted).2 ▸ (h.without hfits _).tells

end Recorded

theorem Tells.recorded (h : db.Tells) (hsized : db.Sized) (hfits : db.held ≤ largest) :
    db.Recorded := by
  refine ⟨hsized, ?_⟩
  unfold Tells at h
  rw [if_pos hfits] at h
  rw [h, Amount.exact_of_le hfits]

/-- If the sum was in range before each operation, the recorded total tells it after the
last. -/
theorem Tells.after {steps : List Step} (h : db.Tells) (hsized : db.Sized)
    (hsteps : ∀ step ∈ steps, ∀ size, step ≠ .setTotalSize size)
    (hrange : ∀ k < steps.length, (db.after (steps.take k)).held ≤ largest) :
    (db.after steps).Tells := by
  induction steps generalizing db with
  | nil => exact h
  | cons step rest ih =>
      rw [List.forall_mem_cons] at hsteps
      have hfits : db.held ≤ largest := hrange 0 (by simp)
      have hnext := Sized.lasting.step hsized hsteps.1 fun _ _ => trivial
      refine ih ((h.recorded hsized hfits).tells_run hfits hsteps.1)
        (hnext _ (by simp [Step.course])) hsteps.2 ?_
      intro k hk
      exact hrange (k + 1) (by simpa using hk)

/-- A new store has nothing to lose. -/
theorem recorded_fresh : fresh.Recorded ∧ fresh.Exact := by
  refine ⟨⟨⟨rfl, fun e he => (List.not_mem_nil he).elim⟩, rfl⟩, by decide⟩

/-- **What the totals are worth.**  In a store that was opened at a new location and whose
recorded total is not overwritten, the computed total is the sum of all sizes, or an
error while the sum is out of range.  So is the recorded total, at each point before
which the sum was in range, and also later if all sizes and sums, also between the rows
of a deletion, are doubles. -/
theorem totals_of_edits (location : String) {steps : List Step}
    (hsteps : ∀ step ∈ steps, ∀ size, step ≠ .setTotalSize size) :
    let store := (Db.empty.open location).db
    (store.after steps).computedTotalSize = (store.after steps).heldTotal ∧
    ((∀ k < steps.length, (store.after (steps.take k)).held ≤ largest) ∨
        (∀ mid ∈ store.stages steps, mid.Exact) →
      (store.after steps).totalSize = (store.after steps).heldTotal) := by
  intro store
  obtain ⟨hrecorded, hexact⟩ : store.Recorded ∧ store.Exact := recorded_fresh
  obtain ⟨-, hsized⟩ := Sized.lasting.stages hrecorded.toSized hsteps fun _ _ => trivial
  refine ⟨hsized.computedTotalSize_eq, ?_⟩
  rintro (hrange | hdoubles)
  · exact totalSize_of_tells hsized (hrecorded.tells.after hrecorded.toSized hsteps hrange)
  · obtain ⟨-, hafter, -⟩ := Recorded.lasting.stages ⟨hrecorded, hexact⟩ hsteps hdoubles
    exact totalSize_of_tells hsized hafter.tells

/-- Two sizes of 2 ^ 62 are too much together; when one of them goes, the other is left. -/
theorem totals_of_edits_and_back :
    let store := (Db.empty.open "x").db
    let there : List Step := [.addBlob 1, .addEntry "a" (2 ^ 62) 1, .addEntry "b" (2 ^ 62) 1]
    let back := there ++ [.deleteEntryByKey "a"]
    ((store.after there).totalSize = .error .database ∧
      (store.after there).computedTotalSize = .error .database) ∧
    (store.after back).totalSize = .ok (2 ^ 62) ∧
      (store.after back).computedTotalSize = .ok (2 ^ 62) := by
  intro store there back
  have hthere : ∀ step ∈ there, ∀ size, step ≠ .setTotalSize size := by simp [there]
  have hback : ∀ step ∈ back, ∀ size, step ≠ .setTotalSize size := by simp [back, there]
  obtain ⟨hcomputed, hrecorded⟩ := totals_of_edits "x" hthere
  obtain ⟨hcomputed', hrecorded'⟩ := totals_of_edits "x" hback
  have hover : (store.after there).heldTotal = .error .database := by decide +kernel
  have hleft : (store.after back).heldTotal = .ok (2 ^ 62) := by decide +kernel
  exact ⟨⟨(hrecorded (Or.inl (by decide +kernel))).trans hover, hcomputed.trans hover⟩,
    (hrecorded' (Or.inr (by decide +kernel))).trans hleft, hcomputed'.trans hleft⟩

/-- A size that is no double gets lost beyond the range: when the largest size there is
goes, an entry of one byte is left, and the recorded total says that there is none. -/
theorem totals_apart :
    ¬ ∀ (location : String) (steps : List Step), (∀ step ∈ steps, step.edits = true) →
      ∀ recorded computed, ((Db.empty.open location).db.after steps).totalSize = .ok recorded →
        ((Db.empty.open location).db.after steps).computedTotalSize = .ok computed →
        recorded = computed := by
  intro hclaim
  let steps : List Step := [.addBlob 1, .addEntry "a" 9223372036854775807 1, .addEntry "b" 1 1,
    .deleteEntryByKey "a"]
  have hrecorded : ((Db.empty.open "x").db.after steps).totalSize = .ok 0 := by decide +kernel
  have hcomputed : ((Db.empty.open "x").db.after steps).computedTotalSize = .ok 1 := by
    decide +kernel
  exact absurd (hclaim "x" steps (by decide) 0 1 hrecorded hcomputed) (by decide)

end Db

end BlobCache
