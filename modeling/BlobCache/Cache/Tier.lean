import BlobCache.Cache.Error
import BlobCache.Store.Opening

/-!
# Tiers

A tier is a store together with a budget, the number of bytes its entries may
have in all.  Putting a payload evicts the least recently used entries until
the payload fits; getting one makes its entry the most recently used.

Every operation is one transaction on the tier's database, which is handed in
and handed back: several tiers may share one.  The work of a put and of a get
is written down in `Tier.writeEntry` and `Tier.readEntry`; whatever fails in
them, `transact` goes back to the database as it was.
-/

namespace BlobCache

/-- The size of the pieces in which payloads are stored. -/
def chunkSize : Nat := 16384

/-- A file as a reader meets it: the size it reports, and the bytes that can be
read before it ends or fails. -/
structure Readable where
  size : Nat
  content : Bytes
deriving DecidableEq, Repr

/-- A file to be cached; `none` if it cannot be opened. -/
structure Source where
  path : String
  opened : Option Readable
deriving DecidableEq, Repr

/-- What a put did with its payload. -/
inductive Stored where
  /-- The payload is cached under its key. -/
  | cached
  /-- The payload is larger than the budget and was ignored. -/
  | oversized
  /-- The tier is closed, and nothing was done. -/
  | closed
deriving DecidableEq, Repr

/-- A payload found in a cache, and the directory it was written to. -/
structure Extracted where
  directory : String
  content : Bytes
deriving DecidableEq, Repr

/-- The bookkeeping of a tier at one moment. -/
structure TierStats where
  entries : Nat
  totalSize : Nat
  budget : Nat
deriving DecidableEq, Repr

/-- A size-bounded cache over one store. -/
structure Tier where
  location : Location
  /-- The number of bytes the entries may have in all. -/
  budget : Nat
  /-- Where payloads are written to, if not to the usual place. -/
  extractDir : Option String := none
  isOpen : Bool := true
deriving DecidableEq, Repr

namespace Tier

/-- The name of a tier in reports. -/
def name (tier : Tier) : String := tier.location.text

/-- Open a tier over the database at a location. -/
def openOn (location : Location) (budget : Nat) (extractDir : Option String) (db : Db) :
    Outcome CacheError Tier :=
  let opened := db.open location.text
  match opened.result with
  | .error e => ⟨.error (.store e), opened.db, opened.log⟩
  | .ok () => ⟨.ok { location, budget, extractDir }, opened.db, opened.log⟩

/-! ## Making room -/

/-- What a scan for entries to evict has come to. -/
structure Scan where
  count : Nat := 0
  freed : Nat := 0
  last? : Option Int := none
deriving DecidableEq, Repr

/-- Take candidates in order until they free `required` bytes or run out.  A
candidate that cannot be read matters only if it is reached. -/
def scan (required : Nat) (so : Scan) : List (Except StoreError Entry) →
    Except StoreError Scan
  | [] => .ok so
  | candidate :: rest =>
    if so.freed < required then
      match candidate with
      | .error e => .error e
      | .ok entry =>
        scan required
          { count := so.count + 1
            freed := satAdd so.freed entry.size
            last? := some entry.id } rest
    else
      .ok so

/-- Evict the least recently used entries until `incoming` more bytes fit into
the budget, where `total` is the size of all entries. -/
def evict (tier : Tier) (total incoming : Nat) : Work CacheError Unit := do
  let required := satAdd total incoming - tier.budget
  let found ← Work.query .store fun db => scan required {} db.evictionCandidates
  match found.last? with
  | none => throw (.corruption "no cached entries, but the total size is nonzero")
  | some last =>
    if found.freed < required then
      throw (.corruption "total size exceeds the sum of all entry sizes")
    let _ ← Work.change .store (Db.deleteEntriesThrough last)
    Work.report (.evicted tier.name found.count found.freed)

/-! ## Putting -/

/-- Store the first `remaining` bytes of `content` as the chunks `seq`,
`seq + 1`, … of a blob. -/
def copyIn (path : String) (blob seq : Int) (remaining : Nat) (content : Bytes) :
    Work CacheError Unit :=
  if remaining = 0 then
    pure ()
  else do
    let length := min remaining chunkSize
    let piece := content.take length
    if piece.length < length then
      throw (.truncatedInput path)
    Work.change (fun _ => .storeWrite) (Db.appendChunk blob seq piece)
    copyIn path blob (seq + 1) (remaining - chunkSize) (content.drop length)
termination_by remaining
decreasing_by simp only [chunkSize]; omega

/-- Store a payload under a key in place of what was there. -/
def writeEntry (tier : Tier) (key path : String) (file : Readable) :
    Work CacheError Unit := do
  let total ← Work.query .store Db.totalSize
  if tier.budget < satAdd total file.size then
    tier.evict total file.size
  let blob ← Work.change (fun _ => .storeWrite) (Db.addBlob file.size)
  let _ ← Work.change .store (Db.deleteEntryByKey key)
  let _ ← Work.change (fun _ => .storeWrite) (Db.addEntry key file.size blob)
  copyIn path blob 0 file.size file.content

/-- Cache the contents of a file under a key.  The file is looked at first,
then its size, and only then whether the tier is open. -/
def tryPut (tier : Tier) (key : String) (source : Source) (db : Db) :
    Outcome CacheError Stored :=
  match source.opened with
  | none => ⟨.error (.sourceUnavailable source.path), db, []⟩
  | some file =>
    if tier.budget < file.size then
      ⟨.ok .oversized, db, [.oversized tier.name key file.size tier.budget]⟩
    else if !tier.isOpen then
      ⟨.ok .closed, db, []⟩
    else
      let written := transact (tier.writeEntry key source.path file) db
      match written.result with
      | .error e => ⟨.error e, written.db, written.log⟩
      | .ok () =>
        ⟨.ok .cached, written.db, written.log ++ [.cached tier.name key file.size]⟩

/-! ## Getting -/

/-- The payload of an entry, written to `directory`; `none` stands for a
directory in which no file can be made. -/
def extract (directory : Option String) (entry : Entry) :
    Work CacheError Extracted := do
  match directory with
  | none => throw .extract
  | some directory =>
    let chunks ← Work.query .store (Db.blobChunks entry.blob)
    let content := chunks.flatten
    if content.length ≠ entry.size then
      throw (.corruption "stored payload length doesn't match its entry")
    pure { directory, content }

/-- Find a payload and make its entry the most recently used one. -/
def readEntry (tier : Tier) (directory : Option String) (key : String) :
    Work CacheError (Option Extracted) := do
  match ← Work.query .store (Db.findEntry key) with
  | none =>
    Work.report (.miss tier.name key)
    pure none
  | some entry =>
    let _ ← Work.change .store (Db.promote entry.id)
    let found ← extract directory entry
    Work.report (.hit tier.name key entry.size)
    pure (some found)

/-- Look a key up.  A closed tier has nothing. -/
def tryGet (tier : Tier) (directory : Option String) (key : String) (db : Db) :
    Outcome CacheError (Option Extracted) :=
  if tier.isOpen then transact (tier.readEntry directory key) db
  else ⟨.ok none, db, []⟩

/-! ## Bookkeeping -/

/-- The number of entries and their recorded total. -/
def readStats (tier : Tier) : Work CacheError TierStats := do
  let entries ← Work.query .store Db.entryCount
  let totalSize ← Work.query .store Db.totalSize
  pure { entries, totalSize, budget := tier.budget }

/-- The bookkeeping of an open tier. -/
def stats (tier : Tier) (db : Db) : Outcome CacheError TierStats :=
  if tier.isOpen then transact tier.readStats db else ⟨.error .closed, db, []⟩

/-- Close a tier.  Later puts do nothing and later gets find nothing. -/
def close (tier : Tier) : Tier × List Event :=
  if tier.isOpen then ({ tier with isOpen := false }, [.tierClosed tier.name])
  else (tier, [])

end Tier

end BlobCache
