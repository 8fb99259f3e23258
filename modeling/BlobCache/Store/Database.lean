import BlobCache.Store.Amount
import BlobCache.Store.Table

/-!
# The tables of a cache

A cache database holds five tables: the format version, the recorded total of
all sizes, the blobs, their chunks, and the entries that give a blob a key and
a place in the order of use.  A sixth table, the ledger, says which migrations
were applied.  Any of them may be missing in a database somebody else made or
spoiled, and each may hold any rows its columns admit.

The order of use is the order of ids: the entry with the smallest id is the
one that was used longest ago.
-/

namespace BlobCache

/-- The bytes of a payload or of a part of one. -/
abbrev Bytes := List UInt8

/-- A row of the table of entries, with the size as it is stored. -/
structure EntryRow where
  id : Int
  key : String
  size : Int
  blob : Int
deriving DecidableEq, Repr

/-- A row of the table of blobs. -/
structure BlobRow where
  id : Int
  size : Int
deriving DecidableEq, Repr

/-- A piece of a blob; pieces are read in the order of `seq`. -/
structure ChunkRow where
  blob : Int
  seq : Int
  data : Bytes
deriving DecidableEq, Repr

/-- Entries are ordered by id; neither ids nor keys occur twice. -/
instance : Row EntryRow where
  before a b := a.id < b.id
  clash a b := a.id = b.id ∨ a.key = b.key
  decidableBefore _ _ := inferInstance
  decidableClash _ _ := inferInstance
  before_trans h₁ h₂ := Int.lt_trans h₁ h₂
  before_or_after h := by simp only [not_or] at h; omega
  clash_symm h := h.imp Eq.symm Eq.symm

/-- Blobs are ordered by id, and ids do not occur twice. -/
instance : Row BlobRow where
  before a b := a.id < b.id
  clash a b := a.id = b.id
  decidableBefore _ _ := inferInstance
  decidableClash _ _ := inferInstance
  before_trans h₁ h₂ := Int.lt_trans h₁ h₂
  before_or_after h := by omega
  clash_symm h := h.symm

/-- Chunks are ordered by blob and number, and a blob has each number once. -/
instance : Row ChunkRow where
  before a b := a.blob < b.blob ∨ a.blob = b.blob ∧ a.seq < b.seq
  clash a b := a.blob = b.blob ∧ a.seq = b.seq
  decidableBefore _ _ := inferInstance
  decidableClash _ _ := inferInstance
  before_trans h₁ h₂ := by omega
  before_or_after h := by omega
  clash_symm h := ⟨h.1.symm, h.2.symm⟩

/-- A migration on record in the ledger. -/
structure Migration where
  version : Int
  /-- Whether it ran to its end. -/
  succeeded : Bool
  /-- Whether its checksum is that of the migration known by this version. -/
  genuine : Bool
deriving DecidableEq, Repr

/-- The kinds of row changes that a database can be told to refuse. -/
inductive RowChange where
  | insertEntries
  | deleteEntries
  | updateEntries
  | insertBlobs
  | insertChunks
  | updateTotal
deriving DecidableEq, Repr

/-- The contents of a database: its tables, each of which may be missing, and
the row changes it refuses. -/
structure Db where
  /-- Format versions, oldest row first. -/
  format : Option (List Int) := none
  /-- Recorded totals, oldest row first. -/
  globals : Option (List Amount) := none
  blobs : Option (Table BlobRow) := none
  chunks : Option (Table ChunkRow) := none
  entries : Option (Table EntryRow) := none
  ledger : Option (List Migration) := none
  refused : List RowChange := []
deriving DecidableEq

namespace Db

/-- A database without tables, as a new file holds it. -/
def empty : Db := {}

/-- Whether changes of this kind are admitted. -/
def admits (db : Db) (change : RowChange) : Bool :=
  !db.refused.contains change

/-- The rows of the table of entries, least recently used first. -/
def entryRows (db : Db) : List EntryRow :=
  (db.entries.map Table.rows).getD []

def blobRows (db : Db) : List BlobRow :=
  (db.blobs.map Table.rows).getD []

def chunkRows (db : Db) : List ChunkRow :=
  (db.chunks.map Table.rows).getD []

/-- The names of the tables that exist. -/
def tableNames (db : Db) : List String :=
  [("format", db.format.isSome), ("globals", db.globals.isSome),
    ("blobs", db.blobs.isSome), ("blob_chunks", db.chunks.isSome),
    ("entries", db.entries.isSome), ("_sqlx_migrations", db.ledger.isSome)].filterMap
    fun (name, found) => if found then some name else none

/-- The sizes of all entries, as stored. -/
def entrySizes (db : Db) : List Int := db.entryRows.map (·.size)

/-- The chunks of a blob, in reading order. -/
def chunksOf (db : Db) (blob : Int) : List Bytes :=
  (db.chunkRows.filter (·.blob = blob)).map (·.data)

end Db

end BlobCache
