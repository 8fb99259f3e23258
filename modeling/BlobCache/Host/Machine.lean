import BlobCache.Cache.Multilevel
import BlobCache.Host.Disk

/-!
# The machine caches run on

A machine has a disk, a directory that relative paths start from, a directory
for temporary files, and the databases that are kept in files or in memory.
Tiers are opened on a machine and known by their number from then on.

What a tier does to its database is said elsewhere; here it is told where the
database is (`Machine.tierPlace`).  Tiers on one file share one database, and a
database that no file holds lives as long as its tier.
-/

namespace BlobCache

/-- A tier of a machine and the number of its database. -/
structure OpenTier where
  tier : Tier
  database : Nat
deriving DecidableEq

/-- A disk, databases and the tiers over them. -/
structure Machine where
  disk : Disk := {}
  workDirectory : Path
  /-- The directory for temporary files, in words. -/
  tempDirectory : String
  databases : List Db := []
  tiers : List OpenTier := []

namespace Machine

/-- The database with this number. -/
def database (m : Machine) (number : Nat) : Db :=
  m.databases[number]?.getD .empty

/-- Put a database back under its number. -/
def setDatabase (m : Machine) (number : Nat) (db : Db) : Machine :=
  { m with databases := m.databases.set number db }

/-- What `text` names on this machine. -/
def named? (m : Machine) (text : String) : Option Node :=
  m.disk.named? m.workDirectory text

/-- Change the disk, if the change goes through. -/
def onDisk (m : Machine) (change : Disk → Option Disk) : Option Machine :=
  (change m.disk).map fun disk => { m with disk }

/-- Make a directory and those it lies in. -/
def makeDirectories (m : Machine) (text : String) : Option Machine := do
  let path ← m.disk.resolve m.workDirectory text
  m.onDisk (·.makeDirectories path)

/-- Write a file. -/
def write (m : Machine) (text : String) (content : Bytes) : Option Machine :=
  m.onDisk (·.write m.workDirectory text content)

/-- The file at a path, as a put meets it.  A directory can be opened and
reports a size, but nothing can be read from it. -/
def source (m : Machine) (path : String) : Source where
  path := path
  opened :=
    match m.named? path with
    | some (.file content) => some { size := content.length, content }
    | some (.database _) => some { size := 0, content := [] }
    | some .directory => some { size := 4096, content := [] }
    | none => none

/-! ## Databases -/

/-- A new database that no file holds. -/
def newDatabase (m : Machine) : Nat × Machine :=
  (m.databases.length, { m with databases := m.databases ++ [.empty] })

/-- Find or make the database in a file; `none` if the path cannot hold one. An
empty file holds a database without tables. -/
def fileDatabase (m : Machine) (text : String) : Option (Nat × Machine) := do
  let path ← m.disk.filePath? m.workDirectory text
  match m.disk.find? path with
  | some (.database number) => some (number, m)
  | some (.file (_ :: _)) => none
  | _ =>
    let (number, m) := m.newDatabase
    some (number, { m with disk := m.disk.put path (.database number) })

/-- Make the directory a file is to lie in, unless the file is to lie in the
working directory. -/
def makeParents (m : Machine) (text : String) : Option Machine := do
  let path ← m.disk.resolve m.workDirectory text
  m.onDisk (·.makeDirectories path.dropLast)

/-- Whether a location is a file.  A file of the name `:memory:`, or without a
name, is none. -/
def inFile? : Location → Option String
  | .memory => none
  | .file text => if text = Location.memory.text || text = "" then none else some text

/-- Find or make the database at a location. -/
def locate (m : Machine) (location : Location) : Option (Nat × Machine) :=
  match inFile? location with
  | none => some m.newDatabase
  | some text => m.fileDatabase text

/-- Find or make the database at a location and the directory its file is to lie
in.  That directory stays even if no database can be had there. -/
def locateOrMake (m : Machine) (location : Location) : Option Nat × Machine :=
  let room := match inFile? location with
    | none => some m
    | some text => m.makeParents text
  match room with
  | none => (none, m)
  | some m =>
    match m.locate location with
    | none => (none, m)
    | some (number, m) => (some number, m)

/-- Open the store at a location: its number, the machine afterwards, and what
was reported. -/
def openStore (m : Machine) (location : Location) :
    Except StoreError Nat × Machine × List Event :=
  match m.locateOrMake location with
  | (none, m) => (.error (.cannotOpen location.text), m, [])
  | (some number, m) =>
    let opened := (m.database number).open location.text
    (opened.result.map fun _ => number, m.setDatabase number opened.db, opened.log)

/-! ## Tiers -/

/-- Open a tier: its number, the machine afterwards, and what was reported. -/
def openTier (m : Machine) (location : Location) (budget : Nat)
    (extractDir : Option String) : Except CacheError Nat × Machine × List Event :=
  match m.locateOrMake location with
  | (none, m) => (.error (.store (.cannotOpen location.text)), m, [])
  | (some database, m) =>
    let opened := Tier.openOn location budget extractDir (m.database database)
    let m := m.setDatabase database opened.db
    match opened.result with
    | .error e => (.error e, m, opened.log)
    | .ok tier =>
      (.ok m.tiers.length, { m with tiers := m.tiers ++ [{ tier, database }] }, opened.log)

/-- The tier with this number; there is a closed one under every other
number. -/
def openTierAt (m : Machine) (number : Nat) : OpenTier :=
  m.tiers[number]?.getD
    { tier := { location := .memory, budget := 0, isOpen := false }, database := 0 }

/-- The directory a tier writes payloads to, if files can be made there. -/
def extractDirectory (m : Machine) (tier : Tier) : Option String :=
  let directory := tier.extractDir.getD m.tempDirectory
  if m.named? directory = some .directory then some directory else none

/-- Where the tier with this number is found. -/
def tierPlace (number : Nat) : TierPlace Machine where
  tier m := (m.openTierAt number).tier
  db m := m.database (m.openTierAt number).database
  directory m := m.extractDirectory (m.openTierAt number).tier
  update tier db m :=
    let database := (m.openTierAt number).database
    { m.setDatabase database db with tiers := m.tiers.set number { tier, database } }

/-- The tier with this number as a cache. -/
def tierCache (number : Nat) : FileCache Machine :=
  .ofTier (tierPlace number)

/-- Do something to a tier's database. -/
def onTier {α : Type} (m : Machine) (number : Nat)
    (operation : Tier → Option String → Db → Outcome CacheError α) :
    Except CacheError α × Machine × List Event :=
  let place := tierPlace number
  let done := operation (place.tier m) (place.directory m) (place.db m)
  (done.result, place.update (place.tier m) done.db m, done.log)

end Machine

end BlobCache
