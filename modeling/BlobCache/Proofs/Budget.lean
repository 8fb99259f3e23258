import BlobCache.Proofs.Session

/-!
# The byte budget

Whatever a database holds when a tier is opened on it, a put that caches its
payload leaves no more bytes than the budget of its tier; nothing else changes
how many bytes are held (`Site.held_act`).  Over a run it follows that with one
budget for all tiers the database never holds more than it did at the beginning
or than the budget allows, and no more than the budget once a payload was cached
(`Site.held_of_run`).

A put reads the recorded total and not the entries, so the bound rests on the
two being equal: `Db.Balanced` is the invariant.  It keeps all sums inside the 64
bits, where the arithmetic of the totals is exact and that of the eviction does
not saturate.
-/

namespace BlobCache

theorem sum_sizes_nonneg {rows : List EntryRow} (h : ∀ e ∈ rows, 0 ≤ e.size) :
    (0 : Int) ≤ (rows.map (·.size)).sum := by
  rw [sum_sizes_eq_weigh h]
  exact Int.natCast_nonneg _

namespace Amount

/-- Sizes that do not exceed an amount are subtracted from it exactly. -/
theorem foldl_sub {l : List EntryRow} {n : Int} (hl : ∀ e ∈ l, 0 ≤ e.size)
    (hle : (l.map (·.size)).sum ≤ n) (hn : n ≤ largest) :
    l.foldl (fun t e => (t.sub e.size).stored) (integer n) =
      integer (n - (l.map (·.size)).sum) := by
  induction l generalizing n with
  | nil => simp
  | cons e l ih =>
      have he := hl e (by simp)
      have hrest : ∀ x ∈ l, 0 ≤ x.size := by
        intro x hx
        exact hl x (List.mem_cons_of_mem _ hx)
      have hsum := sum_sizes_nonneg hrest
      rw [List.map_cons, List.sum_cons] at hle ⊢
      have hfits : Fits (n - e.size) := by
        simp only [Fits, smallest]
        omega
      rw [List.foldl_cons, sub_integer hfits, stored_integer, ih hrest (by omega) (by omega)]
      congr 1
      omega

end Amount

theorem checkedSum_eq_some {l : List Int} {start s : Int}
    (h : checkedSum start l = some s) : s = start + l.sum := by
  induction l generalizing start with
  | nil => simpa [checkedSum] using h.symm
  | cons n rest ih =>
      simp only [checkedSum] at h
      split at h
      · rw [ih h, List.sum_cons, Int.add_assoc]
      · cases h

/-- A column of sizes that are not negative is added up exactly when its sum
is in range: no partial sum is larger than the whole. -/
theorem checkedSum_of_nonneg {l : List Int} {start : Int} (hl : ∀ n ∈ l, 0 ≤ n)
    (h0 : 0 ≤ start) (hs : start + l.sum ≤ largest) :
    checkedSum start l = some (start + l.sum) := by
  induction l generalizing start with
  | nil => simp [checkedSum]
  | cons n rest ih =>
      have hn := hl n (by simp)
      have hrest : ∀ m ∈ rest, 0 ≤ m := by
        intro m hm
        exact hl m (List.mem_cons_of_mem _ hm)
      have hsum : 0 ≤ rest.sum := List.sum_nonneg hrest
      rw [List.sum_cons, ← Int.add_assoc] at hs ⊢
      have hfits : Fits (start + n) := by
        simp only [Fits, smallest]
        omega
      rw [checkedSum, if_pos hfits, ih hrest (by omega) hs]

namespace Db

/-- The bytes that the entries have in all. -/
def held (db : Db) : Int := db.entrySizes.sum

/-- The recorded total is the sum of all sizes, and 64 bits can hold it. -/
structure Balanced (db : Db) : Prop where
  sizes : ∀ e ∈ db.entryRows, 0 ≤ e.size
  recorded : ∃ rest, db.globals = some (.integer db.held :: rest)
  fits : db.held ≤ largest

variable {db db' : Db}

theorem held_eq_weigh (h : ∀ e ∈ db.entryRows, 0 ≤ e.size) : db.held = weigh db.entryRows :=
  sum_sizes_eq_weigh h

theorem held_congr (h : db'.entryRows = db.entryRows) : db'.held = db.held := by
  rw [held, entrySizes, h]
  rfl

/-- Sizes that add up add up to what is weighed. -/
theorem computedTotalSize_ok {computed : Nat} (hsizes : ∀ e ∈ db.entryRows, 0 ≤ e.size)
    (h : db.computedTotalSize = .ok computed) : computed = weigh db.entryRows := by
  simp only [computedTotalSize, except_bind_eq_ok, answered_eq_ok, readSize] at h
  obtain ⟨entries, hentries, sum, hsum, hread⟩ := h
  have hsum' := checkedSum_eq_some hsum
  rw [Int.zero_add, ← entryRows_of_some hentries, sum_sizes_eq_weigh hsizes] at hsum'
  rw [hsum', if_pos (Int.natCast_nonneg _)] at hread
  exact (Except.ok.inj hread).symm

/-- What is deleted and what is left are together what was held. -/
theorem held_without (db : Db) (p : EntryRow → Bool) :
    (db.without p).held = db.held - ((db.entryRows.filter p).map (·.size)).sum := by
  have hperm := ((List.filter_append_perm p db.entryRows).map (·.size)).sum_eq
  rw [List.map_append, List.sum_append] at hperm
  simp only [held, entrySizes, entryRows_without]
  omega

/-- What an entry adds to the bytes held is its size. -/
theorem EntryAdded.held_eq {row : EntryRow} (h : EntryAdded row db db') :
    db'.held = db.held + row.size := by
  have hperm := ((Table.perm_place row db.entryRows).map (·.size)).sum_eq
  rw [List.map_cons, List.sum_cons] at hperm
  simp only [held, entrySizes, h.rows]
  omega

/-- An entry that moves is as large as before. -/
theorem EntryMoved.held_eq {e : EntryRow} {top : Int} (h : EntryMoved e top db db') :
    db'.held = db.held := by
  have hperm := List.filter_append_perm (fun x => decide (x ≠ e)) db.entryRows
  have hsplit := (hperm.map (·.size)).sum_eq
  have hone : db.entryRows.filter (fun x => !decide (x ≠ e)) = [e] := by
    rw [← filter_eq_of_mem h.mem]
    simp
  rw [hone, List.map_append, List.sum_append] at hsplit
  simp only [held, entrySizes, h.rows, List.map_append, List.sum_append]
  exact hsplit

namespace Balanced

/-- The balance is a matter of the entries and the recorded totals. -/
theorem congr (h : db.Balanced) (hrows : db'.entryRows = db.entryRows)
    (hglobals : db'.globals = db.globals) : db'.Balanced := by
  have hheld := held_congr hrows
  refine ⟨?_, ?_, ?_⟩
  · rw [hrows]
    exact h.sizes
  · rw [hglobals, hheld]
    exact h.recorded
  · rw [hheld]
    exact h.fits

theorem totalSize_eq (h : db.Balanced) : db.totalSize = .ok (weigh db.entryRows) := by
  obtain ⟨rest, hrest⟩ := h.recorded
  have hheld := held_eq_weigh h.sizes
  rw [hheld] at hrest
  simp [totalSize, hrest, answered, readSize, bind, Except.bind]

/-- The total and the size of a payload are both below `2 ^ 63`, so that their sum does
not saturate. -/
theorem required_eq (h : db.Balanced) (tier : Tier) {size : Nat} (hsize : (size : Int) ≤ largest) :
    tier.required (weigh db.entryRows) size = weigh db.entryRows + size - tier.budget := by
  have hheld := held_eq_weigh h.sizes
  have hfits := h.fits
  simp only [largest] at hfits hsize
  rw [Tier.required, satAdd_eq (by simp only [wordMax]; omega)]

/-- What is deleted leaves the total. -/
theorem without (h : db.Balanced) (p : EntryRow → Bool) : (db.without p).Balanced := by
  obtain ⟨rest, hrest⟩ := h.recorded
  have hgone : ∀ e ∈ db.entryRows.filter p, 0 ≤ e.size := by
    intro e he
    exact h.sizes e (List.mem_filter.mp he).1
  have hleft : ∀ e ∈ (db.without p).entryRows, 0 ≤ e.size := by
    intro e he
    rw [entryRows_without] at he
    exact h.sizes e (List.mem_filter.mp he).1
  have hheld := held_without db p
  have hnonneg : (0 : Int) ≤ (db.without p).held := sum_sizes_nonneg hleft
  have hsum := sum_sizes_nonneg hgone
  have hfits := h.fits
  refine ⟨hleft, ?_, by omega⟩
  have hfold := Amount.foldl_sub hgone (n := db.held) (by omega) hfits
  refine ⟨rest.map fun t => (db.entryRows.filter p).foldl
    (fun t e => (t.sub e.size).stored) t, ?_⟩
  rw [hheld, ← hfold]
  simp only [Db.without, hrest, Option.map_some, List.map_cons]

theorem held_without_le (h : db.Balanced) (p : EntryRow → Bool) :
    (db.without p).held ≤ db.held := by
  have hgone : (0 : Int) ≤ ((db.entryRows.filter p).map (·.size)).sum := by
    apply sum_sizes_nonneg
    intro e he
    exact h.sizes e (List.mem_filter.mp he).1
  have hheld := held_without db p
  omega

/-- A new entry joins the total, as long as 64 bits hold the sum. -/
theorem entryAdded {row : EntryRow} (h : db.Balanced) (hadded : EntryAdded row db db')
    (hsize : 0 ≤ row.size) (hfits : db.held + row.size ≤ largest) :
    db'.Balanced ∧ db'.held = db.held + row.size := by
  obtain ⟨rest, hrest⟩ := h.recorded
  have hheld := hadded.held_eq
  have hnonneg : (0 : Int) ≤ db.held := sum_sizes_nonneg h.sizes
  have hsum : Fits (db.held + row.size) := by
    simp only [Fits, smallest]
    omega
  refine ⟨⟨hadded.forall_rows.mpr ⟨hsize, h.sizes⟩, ?_, by omega⟩, hheld⟩
  refine ⟨rest.map fun t => (t.add row.size).stored, ?_⟩
  rw [hadded.totals, hrest, Option.map_some, List.map_cons, Amount.add_integer hsum,
    Amount.stored_integer, hheld]

/-- An entry that moves leaves the total right. -/
theorem entryMoved {e : EntryRow} {top : Int} (h : db.Balanced)
    (hmoved : EntryMoved e top db db') : db'.Balanced ∧ db'.held = db.held := by
  have hheld := hmoved.held_eq
  have hglobals := hmoved.globals_eq
  refine ⟨⟨?_, ?_, ?_⟩, hheld⟩
  · exact hmoved.forall_rows.mpr ⟨fun x hx _ => h.sizes x hx, h.sizes e hmoved.mem⟩
  · rw [hglobals, hheld]
    exact h.recorded
  · rw [hheld]
    exact h.fits

end Balanced

/-- Migrating leaves a recorded total alone. -/
theorem migrate_globals (h : db.globals.isSome) (location : String) :
    (db.migrate location).db.globals = db.globals := by
  obtain ⟨totals, htotals⟩ := Option.isSome_iff_exists.mp h
  unfold migrate
  split
  · rfl
  · simp only
    split
    · rfl
    · split
      · rfl
      · simp [createSchema, htotals]

/-- Opening finds nothing to correct, if a total that can be read is right. -/
theorem open_globals (hthere : db.globals.isSome)
    (hright : ∀ total, db.totalSize = .ok total → db.Balanced) (location : String) :
    (db.open location).db.globals = db.globals := by
  have hmigrate := migrate_globals hthere location
  have hread : (db.migrate location).db.totalSize = db.totalSize := by
    rw [totalSize, hmigrate]
    rfl
  unfold Db.open
  simp only
  split
  · exact hmigrate
  · rcases transact_cases (checkAndRepair location) (db.migrate location).db with
      ⟨⟨⟩, fin, hwork, -, hdb⟩ | ⟨e, -, hdb⟩
    · obtain ⟨-, stored, computed, hstored, hcomputed, ⟨-, hsame⟩ | ⟨hwrong, -⟩⟩ :=
        checkAndRepair_ok hwork
      · rw [hdb, hsame]
        exact hmigrate
      · refine absurd ?_ hwrong
        have hbalanced := (hright stored (hread.symm.trans hstored)).congr
          (db.migrate_sameRows location).entries hmigrate
        obtain rfl := Except.ok.inj (hbalanced.totalSize_eq.symm.trans hstored)
        exact (computedTotalSize_ok hbalanced.sizes hcomputed).symm
    · rw [hdb]
      exact hmigrate

theorem Balanced.open_globals (h : db.Balanced) (location : String) :
    (db.open location).db.globals = db.globals := by
  obtain ⟨rest, hrest⟩ := h.recorded
  exact Db.open_globals (by simp [hrest]) (fun _ _ => h) location

end Db

theorem Evicted.balanced {required : Nat} {taken rest : List EntryRow} {db db' : Db}
    (h : Evicted required taken rest db db') (hb : db.Balanced) : db'.Balanced := by
  rw [h.left]
  exact hb.without _

section Filling

variable {key : String} {file : Readable} {db db' : Db}

/-- The total is right while the new blob waits and the old entry of the key is gone. -/
theorem Filling.balanced_cleared (f : Filling key file db db') (h : db.Balanced) :
    (f.stocked.without (·.key = key)).Balanced ∧
      (f.stocked.without (·.key = key)).held ≤ db.held := by
  have hrows := f.added.entryRows_eq
  have hstocked : f.stocked.Balanced := h.congr hrows (by rw [f.added.frame])
  exact ⟨hstocked.without _, Db.held_congr hrows ▸ hstocked.held_without_le _⟩

/-- Copying the payload leaves the entries and the totals alone. -/
theorem Filling.listed_eq (f : Filling key file db db') :
    db'.entryRows = f.listed.entryRows ∧ db'.globals = f.listed.globals :=
  ⟨(congrArg Db.entryRows f.frame).trans rfl, (congrArg Db.globals f.frame).trans rfl⟩

/-- What is written joins what is held, and the old entry of the key leaves it. -/
theorem Filling.held_le (f : Filling key file db db') (h : db.Balanced)
    (hfits : db.held + file.size ≤ largest) :
    db'.Balanced ∧ db'.held ≤ db.held + file.size := by
  obtain ⟨hcleared, hle⟩ := f.balanced_cleared h
  obtain ⟨hlisted, hlistedHeld⟩ := hcleared.entryAdded f.entered (Int.natCast_nonneg _)
    (by simp only; omega)
  obtain ⟨hrows, hglobals⟩ := f.listed_eq
  have hheld := Db.held_congr hrows
  refine ⟨hlisted.congr hrows hglobals, ?_⟩
  simp only at hlistedHeld
  omega

end Filling

section Writing

variable {tier : Tier} {key : String} {file : Readable} {db db' : Db}

/-- A put that caches its payload frees what is over the budget. -/
theorem Writing.required_eq (w : Writing tier key file db db') (h : db.Balanced)
    (hfits : (file.size : Int) ≤ largest) :
    tier.required w.total file.size = weigh db.entryRows + file.size - tier.budget := by
  have htotal : weigh db.entryRows = w.total :=
    Except.ok.inj (h.totalSize_eq.symm.trans w.recorded)
  rw [← htotal]
  exact h.required_eq tier hfits

/-- What is evicted makes room for the payload. -/
theorem Writing.roomy_held_le (w : Writing tier key file db db') (h : db.Balanced)
    (hbudget : (tier.budget : Int) ≤ largest) (hsize : file.size ≤ tier.budget) :
    w.roomy.held + file.size ≤ tier.budget := by
  have henough := w.evicted.enough
  rw [w.required_eq h (by omega), w.evicted.rows, weigh_append] at henough
  rw [Db.held_eq_weigh (w.evicted.balanced h).sizes, w.evicted.rows_left]
  omega

/-- **A put that caches its payload stays within the budget**, and keeps the
recorded total right. -/
theorem Writing.held_le (w : Writing tier key file db db') (h : db.Balanced)
    (hbudget : (tier.budget : Int) ≤ largest) (hsize : file.size ≤ tier.budget) :
    db'.Balanced ∧ db'.held ≤ tier.budget := by
  have hroom := w.roomy_held_le h hbudget hsize
  obtain ⟨hbalanced, hle⟩ := w.filling.held_le (w.evicted.balanced h) (by omega)
  exact ⟨hbalanced, by omega⟩

end Writing

namespace Site

variable {site : Site}

/-- **What an act does to the bytes held.**  A put that caches its payload leaves
no more than the budget of its tier, and every other act leaves what was held. -/
theorem held_act (h : site.db.Balanced) (hbudgets : ∀ t ∈ site.tiers, (t.budget : Int) ≤ largest)
    (step : Act) :
    (site.act step).db.Balanced ∧
      match site.cached? step with
      | some budget => (site.act step).db.held ≤ budget
      | none => (site.act step).db.held = site.db.held := by
  rcases site.act_cases step with ⟨tier, _, _, htier, hsize, hcached, ⟨w⟩⟩ |
    ⟨hcached, e, top, hmoved⟩ | ⟨hcached, hsame, hglobals⟩
  · rw [hcached]
    exact w.held_le h (hbudgets tier htier) hsize
  · rw [hcached]
    exact h.entryMoved hmoved
  · rw [hcached]
    refine ⟨h.congr hsame.entries ?_, Db.held_congr hsame.entries⟩
    rcases hglobals with ⟨budget, extractDir, rfl⟩ | hglobals
    · simp only [act, Tier.openOn_db]
      exact h.open_globals _
    · exact hglobals

/-- What an act commits on the way holds no more than what it started from. -/
theorem held_commits (h : site.db.Balanced)
    (hbudgets : ∀ t ∈ site.tiers, (t.budget : Int) ≤ largest) (step : Act) :
    ∀ db ∈ site.commits step,
      match site.cached? step with
      | some budget => db.held ≤ budget
      | none => db.held = site.db.held := by
  intro db hdb
  rcases of_mem_commits hdb with rfl | ⟨hcached, rfl⟩
  · exact (held_act h hbudgets step).2
  · rw [hcached]
    exact Db.held_congr (site.db.migrate_sameRows _).entries

/-- What caches a payload is one of the tiers. -/
theorem mem_of_cached {step : Act} {budget : Nat} (h : site.cached? step = some budget) :
    ∃ t ∈ site.tiers, t.budget = budget := by
  rcases site.act_cases step with ⟨tier, _, _, htier, -, hcached, -⟩ | ⟨hcached, -⟩ | ⟨hcached, -⟩
  · exact ⟨tier, htier, Option.some.inj (hcached.symm.trans h)⟩
  · cases hcached.symm.trans h
  · cases hcached.symm.trans h

/-- Whether some act of a run caches a payload. -/
def everCached (site : Site) : List Act → Bool
  | [] => false
  | step :: rest => (site.cached? step).isSome || (site.act step).everCached rest

/-- The tiers of a site have budgets that 64 bits can hold, and the bytes held
are on record. -/
structure Solvent (site : Site) : Prop where
  balanced : site.db.Balanced
  budgets : ∀ t ∈ site.tiers, (t.budget : Int) ≤ largest

theorem Solvent.act (h : site.Solvent) {step : Act}
    (hstep : ∀ (b : Nat) extractDir, step = .open b extractDir → (b : Int) ≤ largest) :
    (site.act step).Solvent := by
  refine ⟨(held_act h.balanced h.budgets step).1, ?_⟩
  intro tier htier
  rcases budget_of_mem_act htier with ⟨t, ht, heq⟩ | ⟨extractDir, hopen⟩
  · rw [← heq]
    exact h.budgets t ht
  · exact hstep _ _ hopen

theorem Solvent.run (h : site.Solvent) {acts : List Act}
    (hacts : ∀ (b : Nat) extractDir, .open b extractDir ∈ acts → (b : Int) ≤ largest) :
    (site.run acts).Solvent := by
  induction acts generalizing site with
  | nil => exact h
  | cons step rest ih =>
      rw [run_cons]
      apply ih
      · apply h.act
        intro budget extractDir heq
        exact hacts budget extractDir (by simp [heq])
      · intro budget extractDir hmem
        exact hacts budget extractDir (by simp [hmem])

/-- Under one budget, a run ends with no more than it started with or than the
budget allows; and with no more than the budget if it caches a payload. -/
theorem held_run_le (h : site.Solvent) {acts : List Act} {budget : Nat}
    (hbudget : ∀ t ∈ site.tiers, t.budget = budget)
    (hopens : ∀ b extractDir, .open b extractDir ∈ acts → b = budget)
    (hacts : ∀ (b : Nat) extractDir, .open b extractDir ∈ acts → (b : Int) ≤ largest) :
    (site.run acts).db.held ≤ max site.db.held budget ∧
      (site.everCached acts = true → (site.run acts).db.held ≤ budget) := by
  induction acts generalizing site with
  | nil => exact ⟨Int.le_max_left _ _, by simp [everCached]⟩
  | cons step rest ih =>
      have hnext : ∀ t ∈ (site.act step).tiers, t.budget = budget := by
        intro tier htier
        rcases budget_of_mem_act htier with ⟨t, ht, heq⟩ | ⟨extractDir, rfl⟩
        · exact heq ▸ hbudget t ht
        · exact hopens _ _ (List.mem_cons_self ..)
      obtain ⟨hmax, hever⟩ := ih (h.act fun b d heq => hacts b d (by simp [heq])) hnext
        (fun b d hmem => hopens b d (by simp [hmem])) fun b d hmem => hacts b d (by simp [hmem])
      have hheld := (held_act h.balanced h.budgets step).2
      rw [run_cons, everCached]
      cases hcached : site.cached? step with
      | none =>
          rw [hcached] at hheld
          simp only at hheld
          rw [hheld] at hmax
          exact ⟨hmax, by simpa using hever⟩
      | some b =>
          rw [hcached] at hheld
          obtain ⟨t, ht, rfl⟩ := mem_of_cached hcached
          rw [hbudget t ht] at hheld
          simp only at hheld
          exact ⟨by omega, fun _ => by omega⟩

/-- **The byte budget.**  Tiers are opened on a balanced database and used in any
order.  At any time, an act that caches a payload commits no more than the budget
of its tier, and any other commits what was held.  If all tiers have one budget,
no more is held than at the beginning or than the budget allows, and no more
than the budget once a payload was cached. -/
theorem held_of_run {db : Db} (hdb : db.Balanced) (location : Location) (acts : List Act)
    (hacts : ∀ (b : Nat) extractDir, .open b extractDir ∈ acts → (b : Int) ≤ largest) :
    let start : Site := { location, db }
    let site := start.run acts
    (∀ step, ∀ after ∈ site.commits step,
      match site.cached? step with
      | some budget => after.held ≤ budget
      | none => after.held = site.db.held) ∧
    ∀ budget : Nat, (∀ b extractDir, .open b extractDir ∈ acts → b = budget) →
      site.db.held ≤ max db.held budget ∧
      (start.everCached acts = true → site.db.held ≤ budget) := by
  intro start site
  have hstart : start.Solvent := ⟨hdb, fun t ht => by cases ht⟩
  have hsite : site.Solvent := hstart.run hacts
  refine ⟨held_commits hsite.balanced hsite.budgets, ?_⟩
  intro budget hopens
  exact held_run_le hstart (fun t ht => by cases ht) hopens hacts

/-- A tier of 3 bytes on a database that holds 5: its first put brings it down. -/
theorem held_of_reopened :
    let db := (({ location := .file "x" } : Site).run
      [.open 9 none, .ask 0 (.put "a" ⟨"f", some ⟨5, [1, 2, 3, 4, 5]⟩⟩)]).db
    let acts : List Act := [.open 3 none, .ask 0 (.put "b" ⟨"g", some ⟨2, [6, 7]⟩⟩)]
    db.held = 5 ∧ (({ location := .file "x", db } : Site).run acts).db.held ≤ 3 := by
  intro db acts
  have hdb : db.Balanced :=
    ⟨by decide +kernel, ⟨[], by decide +kernel⟩, by decide +kernel⟩
  have hopens : ∀ (b : Nat) extractDir, Act.open b extractDir ∈ acts → b = 3 := by
    intro b extractDir hmem
    simp only [acts, List.mem_cons, Act.open.injEq, reduceCtorEq, List.not_mem_nil,
      or_false] at hmem
    exact hmem.1
  have hrun := held_of_run hdb (.file "x") acts fun b extractDir hmem => by
    rw [hopens b extractDir hmem]
    decide
  exact ⟨by decide +kernel, (hrun.2 3 hopens).2 (by decide +kernel)⟩

end Site

end BlobCache
