import BlobCache.Proofs.Opening
import BlobCache.Proofs.Places
import BlobCache.Proofs.Refusal

/-!
# Closing and opening again

A tier of a new file may be closed and opened again at any time: nothing is
repaired, no answer is another than it would have been, and the database is the
same row by row, so that the same entries are evicted later on
(`Machine.life_reopened`).

Two things stay true all the time.  The database is one on which opening finds
nothing to do (`Db.Settled`), for the recorded total is always right and the schema is
never touched.  And the file is where it was, with all directories above it, so that
the same database is found there again (`Disk.Holds`).
-/

namespace BlobCache

namespace Db

variable {db db' : Db}

/-- A database on which opening finds nothing to do. -/
structure Settled (db : Db) : Prop where
  migrated : db.Migrated
  onRecord : db.ledger.isSome
  version : db.formatVersion = .ok (some currentFormat)
  entries : db.entries.isSome
  balanced : db.Balanced

theorem settled_fresh : fresh.Settled where
  migrated := migrated_of_schema rfl rfl
  onRecord := rfl
  version := rfl
  entries := rfl
  balanced := (ready_fresh 0).balanced

theorem Settled.usable (h : db.Settled) : db.Usable :=
  ⟨h.migrated, h.version, h.entries, h.balanced.sizes, h.balanced.fits⟩

/-- Opening does nothing. -/
theorem Settled.open_eq (h : db.Settled) (location : String) :
    db.open location = ⟨.ok (), db, []⟩ := by
  have hheld : db.held.toNat = weigh db.entryRows := by
    rw [held_eq_weigh h.balanced.sizes, Int.toNat_natCast]
  have hopened := h.usable.open_of_right location (hheld ▸ h.balanced.totalSize_eq)
  rw [h.migrated.migrate_eq, if_pos h.onRecord] at hopened
  exact hopened

/-- A balanced database with the same schema is settled too. -/
theorem Settled.congr (h : db.Settled) (hformat : db'.format = db.format)
    (hledger : db'.ledger = db.ledger) (hentries : db'.entries.isSome) (hb : db'.Balanced) :
    db'.Settled where
  migrated := h.migrated.congr hformat hledger
  onRecord := hledger ▸ h.onRecord
  version := by
    rw [formatVersion, hformat]
    exact h.version
  entries := hentries
  balanced := hb

end Db

/-- What is written leaves the schema alone. -/
theorem Writing.schema {tier : Tier} {key : String} {file : Readable} {db db' : Db}
    (w : Writing tier key file db db') :
    db'.format = db.format ∧ db'.ledger = db.ledger ∧ db'.entries.isSome := by
  have hroomy : w.roomy.format = db.format ∧ w.roomy.ledger = db.ledger := by
    rw [w.evicted.left]
    exact ⟨rfl, rfl⟩
  have hstocked : w.filling.stocked.format = w.roomy.format ∧
      w.filling.stocked.ledger = w.roomy.ledger := by
    rw [w.filling.added.frame]
    exact ⟨rfl, rfl⟩
  have hlisted : w.filling.listed.format = w.filling.stocked.format ∧
      w.filling.listed.ledger = w.filling.stocked.ledger := by
    rw [w.filling.entered.frame]
    exact ⟨rfl, rfl⟩
  have hthere := w.filling.entered.there
  rw [w.filling.frame]
  exact ⟨hlisted.1.trans (hstocked.1.trans hroomy.1),
    hlisted.2.trans (hstocked.2.trans hroomy.2), hthere⟩

/-- Whatever a tier is asked for, opening its database has nothing to do then. -/
theorem Db.Settled.served {tier : Tier} {db : Db} (h : db.Settled)
    (hbudget : (tier.budget : Int) ≤ largest) (request : Request) :
    (tier.serve request db).2.Settled := by
  rcases tier.serve_cases request db with ⟨key, file, hsize, -, ⟨w⟩⟩ | ⟨-, ⟨e, top, hmoved⟩ | hdb⟩
  · obtain ⟨hformat, hledger, hentries⟩ := w.schema
    exact h.congr hformat hledger hentries (w.held_le h.balanced hbudget hsize).1
  · have hschema : (tier.serve request db).2.format = db.format ∧
        (tier.serve request db).2.ledger = db.ledger := by
      rw [hmoved.frame]
      exact ⟨rfl, rfl⟩
    exact h.congr hschema.1 hschema.2 hmoved.there (h.balanced.entryMoved hmoved).1
  · rw [hdb]
    exact h

/-! ## The same file again -/

namespace Disk

variable {disk disk' made : Disk} {base path : Path} {text : String} {n : Nat}

/-- The file named by `text` holds the database `n`, and its directories are there. -/
def Holds (disk : Disk) (base : Path) (text : String) (n : Nat) : Prop :=
  ∃ path, disk.resolve base text = some path ∧
    disk.makeDirectories path.dropLast = some disk ∧
    disk.filePath? base text = some path ∧ disk.find? path = some (.database n)

/-- The root is a directory on every disk. -/
theorem ne_root (h : disk.isDirectory path = false) : path ≠ [] := by
  rintro rfl
  simp [isDirectory, find?] at h

/-- What is put where no directory is takes no directory away. -/
theorem keeps_put {node : Node} (h : disk.isDirectory path = false) :
    disk.Keeps (disk.put path node) := by
  intro p hp
  have hne : p ≠ path := by
    rintro rfl
    rw [hp] at h
    cases h
  rw [isDirectory, find?_put (ne_root h), if_neg hne]
  exact hp

/-- Where the directories are there, making them does nothing. -/
theorem foldlM_ensure_of_there {paths : List Path}
    (h : ∀ p ∈ paths, disk.isDirectory p = true) : paths.foldlM ensure disk = some disk := by
  induction paths with
  | nil => rfl
  | cons first rest ih =>
      have hfirst : disk.ensure first = some disk := by
        have hthere := h first (List.mem_cons_self ..)
        simp only [isDirectory, decide_eq_true_eq] at hthere
        simp only [ensure, hthere]
      rw [List.foldlM_cons, hfirst]
      exact ih fun p hp => h p (List.mem_cons_of_mem _ hp)

/-- Directories that were made need not be made again. -/
theorem makeDirectories_again (h : disk.makeDirectories path = some made)
    (hkeeps : made.Keeps disk') : disk'.makeDirectories path = some disk' := by
  rw [makeDirectories_eq] at h ⊢
  exact foldlM_ensure_of_there fun p hp => hkeeps p ((foldlM_ensure h).2 p hp)

/-- A database in a new file, or found in an old one, is there. -/
theorem holds_of_made (hpath : disk.resolve base text = some path)
    (hmade : disk.makeDirectories path.dropLast = some made)
    (hplace : made.filePath? base text = some path) (hkeeps : made.Keeps disk')
    (hfound : disk'.find? path = some (.database n)) : disk'.Holds base text n := by
  obtain ⟨-, hdemands, -, hroom⟩ := filePath?_eq_some.mp hplace
  have hpath' := hkeeps.resolve ((extends_makeDirectories hmade).keeps.resolve hpath)
  refine ⟨path, hpath', makeDirectories_again hmade hkeeps, ?_, hfound⟩
  refine filePath?_eq_some.mpr ⟨hpath', hdemands, ?_, hkeeps _ hroom⟩
  simp [isDirectory, hfound]

end Disk

namespace Machine

variable {m m' : Machine} {location : Location} {number : Nat} {text : String}

/-- What was found or made at a location is there afterwards. -/
theorem holds_of_locateOrMake (hfile : inFile? location = some text)
    (h : m.locateOrMake location = (some number, m')) :
    m'.disk.Holds m'.workDirectory text number := by
  obtain ⟨path, disk, hpath, hdisk, hplace, ⟨hfound, rfl⟩ | ⟨-, rfl⟩⟩ := locateOrMake_file hfile h
  · exact Disk.holds_of_made hpath hdisk hplace (fun _ h => h) hfound
  · have hfree := (Disk.filePath?_eq_some.mp hplace).2.2.1
    refine Disk.holds_of_made hpath hdisk hplace (Disk.keeps_put hfree) ?_
    rw [Disk.find?_put (Disk.ne_root hfree), if_pos rfl]

/-- What is there is found again, and nothing is made. -/
theorem locateOrMake_of_holds (hfile : inFile? location = some text)
    (h : m.disk.Holds m.workDirectory text number) :
    m.locateOrMake location = (some number, m) := by
  obtain ⟨path, hpath, hdirectories, hplace, hfound⟩ := h
  have hroom : m.makeParents text = some m := by
    simp [makeParents, onDisk, hpath, hdirectories]
  have hdatabase : m.fileDatabase text = some (number, m) := by
    simp [fileDatabase, hplace, hfound]
  simp only [locateOrMake, hfile, hroom, locate, hdatabase]

/-- A tier opened where a settled database is there finds it as it is. -/
theorem openTier_of_holds (hfile : inFile? location = some text)
    (h : m.disk.Holds m.workDirectory text number) (hdb : (m.database number).Settled)
    (budget : Nat) (extractDir : Option String) :
    m.openTier location budget extractDir = (.ok m.tiers.length,
      { m with tiers := m.tiers ++ [⟨{ location, budget, extractDir }, number⟩] }, []) := by
  have hsame : m.databases.set number (m.database number) = m.databases := set_getD_self _ _ _
  simp only [openTier, locateOrMake_of_holds hfile h, Tier.openOn, hdb.open_eq, setDatabase, hsame]

/-- A tier that was opened at a new location is kept there. -/
theorem holds_of_openTier {budget : Nat} {extractDir : Option String} {log : List Event}
    (hfile : inFile? location = some text) (hnew : m.IsNew location)
    (h : m.openTier location budget extractDir = (.ok number, m', log)) :
    m'.disk.Holds m'.workDirectory text m.databases.length := by
  unfold openTier at h
  split at h
  · cases h
  · rename_i found made hmade
    have hholds := holds_of_locateOrMake hfile hmade
    obtain ⟨rfl, -, -⟩ := locateOrMake_new hnew hmade
    simp only at h
    split at h
    · cases h
    · cases h
      exact hholds

end Machine

/-! ## A tier in use -/

/-- What the user of a tier does. -/
inductive Turn where
  | put (key : String) (source : Source)
  | get (key : String)
  | stats
  /-- Close the tier, and open it again with the same budget and directory. -/
  | reopen
deriving DecidableEq

/-- What the tier is asked for, if payloads are written to `directory`. -/
def Turn.request? (directory : Option String) : Turn → Option Request
  | .put key source => some (.put key source)
  | .get key => some (.get directory key)
  | .stats => some .stats
  | .reopen => none

/-- The answers of a tier that stays open, each with the database after it. -/
def Tier.record (tier : Tier) (directory : Option String) (db : Db) :
    List Turn → List (Reply × Db)
  | [] => []
  | turn :: rest =>
    match turn.request? directory with
    | some request =>
      tier.serve request db :: tier.record directory (tier.serve request db).2 rest
    | none => tier.record directory db rest

/-- A tier that stays open does not hear of what is not asked. -/
theorem Tier.record_filter (tier : Tier) (directory : Option String) (db : Db)
    (turns : List Turn) :
    tier.record directory db (turns.filter (· ≠ .reopen)) = tier.record directory db turns := by
  induction turns generalizing db with
  | nil => rfl
  | cons turn rest ih =>
      cases turn with
      | reopen =>
          rw [List.filter_cons_of_neg (by simp), ih]
          rfl
      | put key source =>
          rw [List.filter_cons_of_pos (by simp)]
          exact congrArg (List.cons _) (ih _)
      | get key =>
          rw [List.filter_cons_of_pos (by simp)]
          exact congrArg (List.cons _) (ih _)
      | stats =>
          rw [List.filter_cons_of_pos (by simp)]
          exact congrArg (List.cons _) (ih _)

namespace Machine

/-- Close a tier, and open one of its kind at its location. -/
def reopen (m : Machine) (number : Nat) : Except CacheError Nat × Machine × List Event :=
  let tier := (tierPlace number).tier m
  ((tierCache number).close m).1.openTier tier.location tier.budget tier.extractDir

/-- The answers of a tier in use, each with the database after it, and what came
of opening it again, each time with what was reported. -/
def life (m : Machine) (number : Nat) :
    List Turn → List (Reply × Db) × List (Except CacheError Nat × List Event)
  | [] => ([], [])
  | turn :: rest =>
    let place := tierPlace number
    match turn.request? (place.directory m) with
    | some request =>
      let answer := (place.tier m).serve request (place.db m)
      let later := (place.update (place.tier m) answer.2 m).life number rest
      (answer :: later.1, later.2)
    | none =>
      let (opened, m', log) := m.reopen number
      let later := m'.life (opened.toOption.getD number) rest
      (later.1, (opened, log) :: later.2)

/-- The database `n` is kept in the file named by `text`, which is the location of
`tier`, and opening it has nothing to do. -/
structure Kept (tier : Tier) (text : String) (n : Nat) (directory : Option String) (db : Db)
    (m : Machine) : Prop where
  bound : n < m.databases.length
  database : m.database n = db
  settled : db.Settled
  file : inFile? tier.location = some text
  holds : m.disk.Holds m.workDirectory text n
  directory : m.extractDirectory tier = directory

/-- The tier `number` is open on a database that is kept in a file. -/
structure InUse (tier : Tier) (text : String) (n : Nat) (directory : Option String) (db : Db)
    (m : Machine) (number : Nat) : Prop extends Kept tier text n directory db m where
  listed : number < m.tiers.length
  there : m.openTierAt number = ⟨tier, n⟩
  isOpen : tier.isOpen = true

section Use

variable {tier : Tier} {text : String} {n : Nat} {directory : Option String} {db db' : Db}
  {m : Machine} {number : Nat}

/-- What happens to a tier leaves its file where it is. -/
theorem InUse.kept_update (h : InUse tier text n directory db m number) (t : Tier)
    (hdb : db'.Settled) : Kept tier text n directory db' ((tierPlace number).update t db' m) where
  bound := by simpa [tierPlace, setDatabase] using h.bound
  database := by
    rw [database_update _ _ (by rw [h.there]; exact h.bound), if_pos (by rw [h.there])]
  settled := hdb
  file := h.file
  holds := h.holds
  directory := h.directory

/-- A tier stays in use with another database. -/
theorem InUse.update (h : InUse tier text n directory db m number) (hdb : db'.Settled) :
    InUse tier text n directory db' ((tierPlace number).update tier db' m) number where
  toKept := h.kept_update tier hdb
  listed := by simpa [tierPlace, setDatabase] using h.listed
  there := by rw [openTierAt_update _ _ h.listed, if_pos rfl, h.there]
  isOpen := h.isOpen

/-- Where a tier is in use, its place is that of its database. -/
theorem InUse.place (h : InUse tier text n directory db m number) :
    (tierPlace number).tier m = tier ∧ (tierPlace number).db m = db ∧
      (tierPlace number).directory m = directory := by
  simp only [tierPlace, h.there]
  exact ⟨trivial, h.database, h.directory⟩

/-- Closing a tier leaves its file where it is. -/
theorem InUse.close (h : InUse tier text n directory db m number) :
    Kept tier text n directory db ((tierCache number).close m).1 := by
  obtain ⟨htier, hdb, -⟩ := h.place
  have hclose : ((tierCache number).close m).1 =
      (tierPlace number).update tier.close.1 db m := by
    simp only [tierCache, FileCache.ofTier, htier, hdb]
  rw [hclose]
  exact h.kept_update _ h.settled

/-- A tier is opened on what is kept at its location, and nothing is repaired. -/
theorem Kept.openTier (h : Kept tier text n directory db m) (hopen : tier.isOpen = true) :
    ∃ m', m.openTier tier.location tier.budget tier.extractDir = (.ok m.tiers.length, m', []) ∧
      InUse tier text n directory db m' m.tiers.length := by
  have htier : Tier.mk tier.location tier.budget tier.extractDir true = tier := by rw [← hopen]
  refine ⟨{ m with tiers := m.tiers ++ [⟨tier, n⟩] }, ?_, ?_⟩
  · rw [openTier_of_holds h.file h.holds (h.database ▸ h.settled), htier]
  · exact {
      bound := h.bound
      database := h.database
      settled := h.settled
      file := h.file
      holds := h.holds
      directory := h.directory
      listed := by simp
      there := by simp [openTierAt]
      isOpen := hopen }

/-- Opening a tier again succeeds, repairs nothing and leaves its database as it is. -/
theorem InUse.reopen (h : InUse tier text n directory db m number) :
    ∃ k m', m.reopen number = (.ok k, m', []) ∧ InUse tier text n directory db m' k := by
  obtain ⟨m', hopened, hused⟩ := h.close.openTier h.isOpen
  refine ⟨_, m', ?_, hused⟩
  rw [Machine.reopen, h.place.1, hopened]

/-- The answers of a tier in use are those of a tier that stays open. -/
theorem InUse.life_eq (h : InUse tier text n directory db m number)
    (hbudget : (tier.budget : Int) ≤ largest) (turns : List Turn) :
    (m.life number turns).1 = tier.record directory db turns ∧
      ∀ opening ∈ (m.life number turns).2, ∃ k, opening = (.ok k, []) := by
  induction turns generalizing m number db with
  | nil => exact ⟨rfl, by simp [life]⟩
  | cons turn rest ih =>
      obtain ⟨htier, hdb, hdirectory⟩ := h.place
      simp only [life, Tier.record, hdirectory]
      cases turn.request? directory with
      | some request =>
          simp only [htier, hdb]
          obtain ⟨hanswers, hopenings⟩ := ih (h.update (h.settled.served hbudget request))
          exact ⟨by rw [hanswers], hopenings⟩
      | none =>
          obtain ⟨k, m', hreopen, hagain⟩ := h.reopen
          obtain ⟨hanswers, hopenings⟩ := ih hagain
          simp only [hreopen]
          refine ⟨hanswers, ?_⟩
          intro opening hopening
          rcases List.mem_cons.mp hopening with rfl | hopening
          · exact ⟨k, rfl⟩
          · exact hopenings opening hopening

end Use

variable {m m' : Machine} {location : Location} {number budget : Nat} {text : String}
  {extractDir : Option String} {log : List Event}

/-- A tier that was opened at a new location is in use. -/
theorem inUse_of_openTier (hfile : inFile? location = some text) (hnew : m.IsNew location)
    (h : m.openTier location budget extractDir = (.ok number, m', log)) :
    InUse { location, budget, extractDir } text m.databases.length
      (m'.extractDirectory { location, budget, extractDir }) .fresh m' number := by
  obtain ⟨rfl, hdatabases, htiers⟩ := openTier_new hnew h
  exact {
    listed := by simp [htiers]
    there := by simp [openTierAt, htiers]
    isOpen := rfl
    bound := by simp [hdatabases]
    database := by simp [database, hdatabases]
    settled := Db.settled_fresh
    file := hfile
    holds := holds_of_openTier hfile hnew h
    directory := rfl }

/-- **Closing and opening again is not noticed.**  A tier of a new file gives the
answers of one that is never closed, each with the same database after it; and
every time it is opened again, it is, and nothing is reported. -/
theorem life_reopened (hfile : inFile? location = some text) (hnew : m.IsNew location)
    (hbudget : (budget : Int) ≤ largest)
    (hopen : m.openTier location budget extractDir = (.ok number, m', log)) (turns : List Turn) :
    (m'.life number turns).1 = (m'.life number (turns.filter (· ≠ .reopen))).1 ∧
      ∀ opening ∈ (m'.life number turns).2, ∃ k, opening = (.ok k, []) := by
  have hused := inUse_of_openTier hfile hnew hopen
  obtain ⟨hanswers, hopenings⟩ := hused.life_eq hbudget turns
  obtain ⟨hanswers', -⟩ := hused.life_eq hbudget (turns.filter (· ≠ .reopen))
  refine ⟨?_, hopenings⟩
  rw [hanswers, hanswers', Tier.record_filter]

/-- A get moves "a" behind "b", and "b" is evicted later on, although the tier was
closed in between. -/
theorem life_reopened_of_eviction :
    let m : Machine :=
      { disk := { nodes := [(["tmp"], .directory)] }, workDirectory := [], tempDirectory := "tmp" }
    let m' := (m.openTier (.file "d/x") 3 none).2.1
    let asked : List Turn := [.put "a" ⟨"f", some ⟨2, [1, 2]⟩⟩, .put "b" ⟨"g", some ⟨1, [3]⟩⟩,
      .get "a", .put "c" ⟨"h", some ⟨1, [4]⟩⟩, .get "b"]
    let turns : List Turn := [.put "a" ⟨"f", some ⟨2, [1, 2]⟩⟩, .put "b" ⟨"g", some ⟨1, [3]⟩⟩,
      .reopen, .get "a", .reopen, .put "c" ⟨"h", some ⟨1, [4]⟩⟩, .reopen, .get "b"]
    inFile? (.file "d/x") = some "d/x" ∧ m.IsNew (.file "d/x") ∧
      (m.openTier (.file "d/x") 3 none).1 = .ok 0 ∧
      (m'.life 0 turns).1 = (m'.life 0 asked).1 ∧
      (m'.life 0 turns).1.getLast?.map (·.1) = some (.found (.ok none)) := by
  intro m m' asked turns
  have hfile : inFile? (.file "d/x") = some "d/x" := by decide
  have hnew : m.IsNew (.file "d/x") := isNew_file (by subst m; cbv)
  have hok : (m.openTier (.file "d/x") 3 none).1 = .ok 0 := by
    subst m
    cbv
  have hopen : m.openTier (.file "d/x") 3 none =
      (.ok 0, m', (m.openTier (.file "d/x") 3 none).2.2) := by
    rw [← hok]
  have hsame := (life_reopened hfile hnew (by decide) hopen turns).1
  have hasked : turns.filter (· ≠ .reopen) = asked := by decide
  rw [hasked] at hsame
  refine ⟨hfile, hnew, hok, hsame, ?_⟩
  rw [hsame]
  subst m' m asked
  cbv

end Machine

end BlobCache
