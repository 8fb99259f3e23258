import BlobCache.Proofs.Operation

/-!
# Tiers that share a database

A site is a database with the tiers that were opened on it.  Whoever uses it may
open another tier, ask any tier for a put, a get or its bookkeeping, and close
one, in any order (`Act`).  Somebody else may at any time tell the database to
refuse row changes, or not to refuse them any longer, so that every statement of
an operation can fail (`Act.hinder`).

Every act commits one database, and opening a tier commits another on the way,
after the schema was brought up to date (`Site.commits`).  Of what an act does
to the rows of the tables there are three kinds: a put that caches writes, a get
that finds moves an entry, and everything else leaves the rows alone
(`Site.act_cases`).
-/

namespace BlobCache

/-! ## Asking a tier -/

/-- What a tier can be asked for.  A get names the directory its payload is to be
written to, if files can be made there. -/
inductive Request where
  | put (key : String) (source : Source)
  | get (directory : Option String) (key : String)
  | stats
deriving DecidableEq

/-- What a tier answers. -/
inductive Reply where
  | stored (answer : Except CacheError Stored)
  | found (answer : Except CacheError (Option Extracted))
  | counted (answer : Except CacheError TierStats)

/-- The answer of a tier and the database afterwards. -/
def Tier.serve (tier : Tier) (request : Request) (db : Db) : Reply × Db :=
  match request with
  | .put key source =>
    let done := tier.tryPut key source db
    (.stored done.result, done.db)
  | .get directory key =>
    let done := tier.tryGet directory key db
    (.found done.result, done.db)
  | .stats =>
    let done := tier.stats db
    (.counted done.result, done.db)

/-- A request that caches a payload writes it; any other moves at most one entry. -/
theorem Tier.serve_cases (tier : Tier) (request : Request) (db : Db) :
    (∃ key file, file.size ≤ tier.budget ∧ (tier.serve request db).1 = .stored (.ok .cached) ∧
      Nonempty (Writing tier key file db (tier.serve request db).2)) ∨
    ((tier.serve request db).1 ≠ .stored (.ok .cached) ∧
      ((∃ e top, Db.EntryMoved e top db (tier.serve request db).2) ∨
        (tier.serve request db).2 = db)) := by
  cases request with
  | put key source =>
      rcases tier.tryPut_cases key source db with
        ⟨file, -, hsize, -, hresult, hwriting⟩ | ⟨hresult, hdb⟩
      · exact Or.inl ⟨key, file, hsize, congrArg Reply.stored hresult, hwriting⟩
      · exact Or.inr ⟨fun h => hresult (Reply.stored.inj h), Or.inr hdb⟩
  | get directory key =>
      rcases tier.tryGet_cases directory key db with ⟨e, top, _, -, -, -, hmoved, -, -⟩ | ⟨-, hdb⟩
      · exact Or.inr ⟨by simp [serve], Or.inl ⟨e, top, hmoved⟩⟩
      · exact Or.inr ⟨by simp [serve], Or.inr hdb⟩
  | stats => exact Or.inr ⟨by simp [serve], Or.inr (tier.stats_db db)⟩

/-! ## Opening a tier -/

/-- The same entries, blobs and chunks are in both databases. -/
structure Db.SameRows (db db' : Db) : Prop where
  entries : db'.entryRows = db.entryRows
  blobs : db'.blobRows = db.blobRows
  chunks : db'.chunkRows = db.chunkRows

theorem Db.SameRows.refl (db : Db) : db.SameRows db := ⟨rfl, rfl, rfl⟩

theorem Db.SameRows.trans {a b c : Db} (h₁ : a.SameRows b) (h₂ : b.SameRows c) :
    a.SameRows c :=
  ⟨h₂.entries.trans h₁.entries, h₂.blobs.trans h₁.blobs, h₂.chunks.trans h₁.chunks⟩

/-- Bringing the schema up to date makes tables, but no rows. -/
theorem Db.migrate_sameRows (location : String) (db : Db) :
    db.SameRows (db.migrate location).db := by
  unfold migrate
  split
  · exact .refl db
  · simp only
    split
    · exact ⟨rfl, rfl, rfl⟩
    · split
      · exact ⟨rfl, rfl, rfl⟩
      · split
        · rename_i created hcreated
          simp only [createSchema, Option.ite_none_left_eq_some, Bool.or_eq_true, not_or,
            Bool.not_eq_true, Option.isSome_eq_false_iff, Option.isNone_iff_eq_none] at hcreated
          obtain ⟨⟨⟨⟨⟨-, -⟩, hblobs⟩, hchunks⟩, hentries⟩, ⟨⟩⟩ := hcreated
          constructor <;> simp [entryRows, blobRows, chunkRows, hblobs, hchunks, hentries]
        · exact ⟨rfl, rfl, rfl⟩

/-- What the check has found when it is passed; it corrects at most the recorded
total. -/
theorem checkAndRepair_ok {location : String} {now fin : Progress}
    (h : checkAndRepair location now = .ok () fin) :
    now.db.formatVersion = .ok (some currentFormat) ∧
      ∃ stored computed, now.db.totalSize = .ok stored ∧ now.db.computedTotalSize = .ok computed ∧
        (stored = computed ∧ fin.db = now.db ∨
          stored ≠ computed ∧ now.db.setTotalSize computed = .ok ((), fin.db)) := by
  simp only [checkAndRepair, Work.bind_ok, Work.query_ok_iff] at h
  obtain ⟨found, _, ⟨hversion, rfl⟩, h⟩ := h
  split at h
  · simp at h
  · rename_i hfound
    rw [Decidable.not_not.mp hfound] at hversion
    simp only [Work.bind_ok, Work.query_ok_iff] at h
    obtain ⟨stored, _, ⟨hstored, rfl⟩, computed, _, ⟨hcomputed, rfl⟩, h⟩ := h
    refine ⟨hversion, stored, computed, hstored, hcomputed, ?_⟩
    split at h
    · rename_i hwrong
      simp only [Work.bind_ok, Work.report_ok, Work.change_ok_iff] at h
      obtain ⟨_, _, rfl, db, hset, rfl⟩ := h
      exact Or.inr ⟨hwrong, hset⟩
    · rename_i hsame
      obtain ⟨-, rfl⟩ := Work.pure_ok.mp h
      exact Or.inl ⟨Decidable.not_not.mp hsame, rfl⟩

theorem Db.open_sameRows (location : String) (db : Db) :
    db.SameRows (db.open location).db := by
  have hmigrate := db.migrate_sameRows location
  unfold Db.open
  simp only
  split
  · exact hmigrate
  · apply hmigrate.trans
    rcases transact_cases (checkAndRepair location) (db.migrate location).db with
      ⟨⟨⟩, fin, hwork, -, hdb⟩ | ⟨e, -, hdb⟩
    · obtain ⟨-, _, _, -, -, ⟨-, hsame⟩ | ⟨-, hset⟩⟩ := checkAndRepair_ok hwork
      · rw [hdb, hsame]
        exact .refl _
      · obtain ⟨_, -, hframe⟩ := Db.setTotalSize_ok hset
        rw [hdb, hframe]
        exact ⟨rfl, rfl, rfl⟩
    · rw [hdb]
      exact .refl _

theorem Tier.openOn_db (location : Location) (budget : Nat) (extractDir : Option String)
    (db : Db) : (openOn location budget extractDir db).db = (db.open location.text).db := by
  unfold openOn
  simp only
  split <;> rfl

/-! ## Sites -/

/-- A database and the tiers that were opened on it. -/
structure Site where
  location : Location
  db : Db := .empty
  tiers : List Tier := []

/-- What can happen at a site.  Tiers are known by their number. -/
inductive Act where
  | open (budget : Nat) (extractDir : Option String)
  | ask (tier : Nat) (request : Request)
  | close (tier : Nat)
  | hinder (refused : List RowChange)

namespace Site

/-- The site after an act. -/
def act (site : Site) : Act → Site
  | .open budget extractDir =>
    let opened := Tier.openOn site.location budget extractDir site.db
    { site with
      db := opened.db
      tiers := match opened.result with
        | .ok tier => site.tiers ++ [tier]
        | .error _ => site.tiers }
  | .ask number request =>
    match site.tiers[number]? with
    | some tier => { site with db := (tier.serve request site.db).2 }
    | none => site
  | .close number => { site with tiers := site.tiers.modify number fun tier => tier.close.1 }
  | .hinder refused => { site with db := { site.db with refused } }

/-- The site after a run. -/
def run (site : Site) (acts : List Act) : Site := acts.foldl act site

/-- The databases that an act commits, one after the other. -/
def commits (site : Site) : Act → List Db
  | .open budget extractDir =>
    [(site.db.migrate site.location.text).db, (site.act (.open budget extractDir)).db]
  | step => [(site.act step).db]

/-- The databases that are there in the course of a run. -/
def history (site : Site) : List Act → List Db
  | [] => [site.db]
  | step :: rest => site.db :: site.commits step ++ (site.act step).history rest

/-- The budget under which an act caches a payload, if it does. -/
def cached? (site : Site) : Act → Option Nat
  | .ask number request =>
    match site.tiers[number]? with
    | some tier =>
      match (tier.serve request site.db).1 with
      | .stored (.ok .cached) => some tier.budget
      | _ => none
    | none => none
  | _ => none

variable {site : Site}

@[simp] theorem run_cons (site : Site) (step : Act) (rest : List Act) :
    site.run (step :: rest) = (site.act step).run rest := rfl

/-- **What an act does to the rows.**  It writes a payload, and reports it as
cached; or it moves an entry; or it leaves the rows alone, and the recorded
totals too unless it opens a tier. -/
theorem act_cases (site : Site) (step : Act) :
    (∃ tier key file, tier ∈ site.tiers ∧ file.size ≤ tier.budget ∧
      site.cached? step = some tier.budget ∧
      Nonempty (Writing tier key file site.db (site.act step).db)) ∨
    (site.cached? step = none ∧ ∃ e top, Db.EntryMoved e top site.db (site.act step).db) ∨
    (site.cached? step = none ∧ site.db.SameRows (site.act step).db ∧
      ((∃ budget extractDir, step = .open budget extractDir) ∨
        (site.act step).db.globals = site.db.globals)) := by
  cases step with
  | «open» budget extractDir =>
      refine Or.inr (Or.inr ⟨rfl, ?_, Or.inl ⟨budget, extractDir, rfl⟩⟩)
      simp only [act, Tier.openOn_db]
      exact site.db.open_sameRows _
  | ask number request =>
      simp only [act, cached?]
      cases hnumber : site.tiers[number]? with
      | none => exact Or.inr (Or.inr ⟨rfl, .refl _, Or.inr rfl⟩)
      | some tier =>
          simp only
          rcases tier.serve_cases request site.db with
            ⟨key, file, hsize, hreply, hwriting⟩ | ⟨hreply, hmoved | hdb⟩
          · simp only [hreply]
            exact Or.inl ⟨tier, key, file, List.mem_of_getElem? hnumber, hsize, rfl, hwriting⟩
          · refine Or.inr (Or.inl ⟨?_, hmoved⟩)
            split
            · rename_i hcached
              exact absurd hcached hreply
            · rfl
          · rw [hdb]
            refine Or.inr (Or.inr ⟨?_, .refl _, Or.inr rfl⟩)
            split
            · rename_i hcached
              exact absurd hcached hreply
            · rfl
  | close number => exact Or.inr (Or.inr ⟨rfl, .refl _, Or.inr rfl⟩)
  | hinder refused => exact Or.inr (Or.inr ⟨rfl, ⟨rfl, rfl, rfl⟩, Or.inr rfl⟩)

/-- The database at the end of a run is the last of its databases. -/
theorem db_run_mem_history (site : Site) (acts : List Act) :
    (site.run acts).db ∈ site.history acts := by
  induction acts generalizing site with
  | nil => exact List.mem_singleton.mpr rfl
  | cons step rest ih =>
      rw [history, run_cons]
      exact List.mem_cons_of_mem _ (List.mem_append_right _ (ih _))

/-- What is committed is what the act leaves, or was only brought up to date. -/
theorem of_mem_commits {step : Act} {db : Db} (h : db ∈ site.commits step) :
    db = (site.act step).db ∨
      site.cached? step = none ∧ db = (site.db.migrate site.location.text).db := by
  cases step with
  | «open» budget extractDir =>
      simp only [commits, List.mem_cons, List.not_mem_nil, or_false] at h
      rcases h with rfl | rfl
      · exact Or.inr ⟨rfl, rfl⟩
      · exact Or.inl rfl
  | ask number request => exact Or.inl (List.mem_singleton.mp h)
  | close number => exact Or.inl (List.mem_singleton.mp h)
  | hinder refused => exact Or.inl (List.mem_singleton.mp h)

/-- A tier of a site was there before the act, or the act opened it. -/
theorem budget_of_mem_act {step : Act} {tier : Tier} (h : tier ∈ (site.act step).tiers) :
    (∃ t ∈ site.tiers, t.budget = tier.budget) ∨
      ∃ extractDir, step = .open tier.budget extractDir := by
  cases step with
  | «open» budget extractDir =>
      simp only [act, Tier.openOn] at h
      split at h
      · rename_i opened hresult
        split at hresult
        · cases hresult
        · cases hresult
          rcases List.mem_append.mp h with h | h
          · exact Or.inl ⟨tier, h, rfl⟩
          · rw [List.mem_singleton.mp h]
            exact Or.inr ⟨extractDir, rfl⟩
      · exact Or.inl ⟨tier, h, rfl⟩
  | ask number request =>
      refine Or.inl ⟨tier, ?_, rfl⟩
      simp only [act] at h
      split at h <;> exact h
  | close number =>
      obtain ⟨i, hi⟩ := List.mem_iff_getElem?.mp h
      simp only [act, List.getElem?_modify] at hi
      obtain ⟨t, ht, heq⟩ := Option.map_eq_some_iff.mp hi
      refine Or.inl ⟨t, List.mem_of_getElem? ht, ?_⟩
      rw [← heq]
      split
      · unfold Tier.close
        split <;> rfl
      · rfl
  | hinder refused => exact Or.inl ⟨tier, h, rfl⟩

/-- What acts preserve holds of every database in a run. -/
theorem history_of_step (good : Db → Prop) (hgood : good site.db)
    (hstep : ∀ (site : Site) step, good site.db → ∀ db ∈ site.commits step, good db)
    (acts : List Act) : ∀ db ∈ site.history acts, good db := by
  induction acts generalizing site with
  | nil =>
      intro db hdb
      rw [history, List.mem_singleton] at hdb
      exact hdb ▸ hgood
  | cons step rest ih =>
      intro db hdb
      have hnext : good (site.act step).db :=
        hstep site step hgood _ (by cases step <;> simp [commits])
      simp only [history, List.cons_append, List.mem_cons, List.mem_append] at hdb
      rcases hdb with rfl | hdb | hdb
      · exact hgood
      · exact hstep site step hgood db hdb
      · exact ih hnext db hdb

end Site

end BlobCache
