/-!
# What a cache reports

Nothing that goes wrong inside a cache reaches its user; it is reported
instead.  `Event` lists everything that can be reported, in the terms of the
cache; level, wording and fields of an event are read off by `Event.level`,
`Event.message` and `Event.fields`.
-/

namespace BlobCache

/-- How important a report is. -/
inductive Level where
  | trace
  | debug
  | info
  | warn
deriving DecidableEq, Repr

/-- What a field of a report holds. -/
inductive Field where
  | text (s : String)
  | number (n : Int)
deriving DecidableEq, Repr

/-- Something a cache reports. A tier is named by its location. -/
inductive Event where
  /-- An existing schema without a ledger is left as it is. -/
  | migrationsSkipped (location : String)
  /-- The recorded total was not the sum of all sizes and was corrected. -/
  | totalRepaired (location : String) (stored computed : Nat)
  /-- A transaction that failed for this cause could not be rolled back. -/
  | rollbackFailed (cause : String)
  /-- Entries were evicted to make room. -/
  | evicted (tier : String) (count freed : Nat)
  /-- A payload is larger than the whole tier may be. -/
  | oversized (tier key : String) (size budget : Nat)
  /-- A payload was stored. -/
  | cached (tier key : String) (size : Nat)
  /-- A payload was found. -/
  | hit (tier key : String) (size : Nat)
  /-- A key was not found. -/
  | miss (tier key : String)
  /-- A put failed. -/
  | putFailed (tier key source : String)
  /-- A get failed. -/
  | getFailed (tier key : String)
  /-- A tier was closed. -/
  | tierClosed (tier : String)
  /-- A get was answered by the level with this number. -/
  | served (key : String) (level : Nat)
  /-- A tier was opened for a cache. -/
  | tierReady (tier : String) (budget : Nat)
  /-- The cache does without a memory tier. -/
  | memoryDisabled
  /-- The memory tier could not be opened, and the cache does without it. -/
  | memoryUnavailable
  /-- The cache does without a disk tier. -/
  | diskDisabled
  /-- The disk tier could not be opened, and the cache does without it. -/
  | diskUnavailable (path : String)
  /-- Nothing says where the disk tier is to be. -/
  | diskUnlocated
  /-- There is no configuration file. -/
  | noConfiguration (path : String)
deriving DecidableEq, Repr

namespace Event

/-- The level at which an event is reported. -/
def level : Event → Level
  | cached .. | hit .. | miss .. | served .. => .trace
  | migrationsSkipped .. | evicted .. | tierClosed .. | tierReady ..
  | noConfiguration .. => .debug
  | oversized .. | memoryDisabled | diskDisabled => .info
  | totalRepaired .. | rollbackFailed .. | putFailed .. | getFailed ..
  | memoryUnavailable | diskUnavailable .. | diskUnlocated => .warn

/-- The sentence under which an event is reported. -/
def message : Event → String
  | migrationsSkipped .. =>
      "Existing schema has no migration history; skipping migrations"
  | totalRepaired .. =>
      "Inconsistent cache state: stored total size does not match " ++
        "the actual total size; fixing it"
  | rollbackFailed .. => "Rollback failed"
  | evicted .. => "Evicted least recently used entries"
  | oversized .. => "Refusing to cache: larger than the tier's size limit"
  | cached .. => "Cached"
  | hit .. => "Cache hit"
  | miss .. => "Cache miss"
  | putFailed .. => "Can't cache file"
  | getFailed .. => "Can't get the cache entry"
  | tierClosed .. => "Cache tier closed"
  | served .. => "Served from cache tier"
  | tierReady .. => "Cache tier ready"
  | memoryDisabled => "In-memory cache disabled"
  | memoryUnavailable => "Unable to create the in-memory cache"
  | diskDisabled => "On-disk cache disabled"
  | diskUnavailable .. => "Unable to open the on-disk cache"
  | diskUnlocated => "Unable to determine the on-disk cache location"
  | noConfiguration .. => "No configuration file found; using defaults"

/-- The particulars of an event, by name. -/
def fields : Event → List (String × Field)
  | migrationsSkipped location => [("location", .text location)]
  | totalRepaired location stored computed =>
      [("location", .text location), ("stored", .number stored),
        ("computed", .number computed)]
  | rollbackFailed cause => [("original", .text cause)]
  | evicted tier count freed =>
      [("tier", .text tier), ("evicted", .number count), ("freed", .number freed)]
  | oversized tier key size budget =>
      [("tier", .text tier), ("key", .text key), ("size", .number size),
        ("budget", .number budget)]
  | cached tier key size =>
      [("tier", .text tier), ("key", .text key), ("size", .number size)]
  | hit tier key size =>
      [("tier", .text tier), ("key", .text key), ("size", .number size)]
  | miss tier key => [("tier", .text tier), ("key", .text key)]
  | putFailed tier key source =>
      [("tier", .text tier), ("key", .text key), ("source", .text source)]
  | getFailed tier key => [("tier", .text tier), ("key", .text key)]
  | tierClosed tier => [("tier", .text tier)]
  | served key level => [("key", .text key), ("tier", .number level)]
  | tierReady tier budget => [("tier", .text tier), ("budget", .number budget)]
  | memoryDisabled | memoryUnavailable | diskDisabled | diskUnlocated => []
  | diskUnavailable path => [("path", .text path)]
  | noConfiguration path => [("path", .text path)]

end Event

end BlobCache
