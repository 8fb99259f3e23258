import BlobCache.Config.Platform
import BlobCache.Host.Machine

/-!
# A cache in memory and on disk

The cache handed to an application: a tier in memory in front of a tier on
disk.  Nothing about it fails.  A tier whose budget is zero, or that cannot be
opened, is left out; with no tier at all the cache takes everything and finds
nothing.
-/

namespace BlobCache

/-- A cache, given by the numbers of its tiers, fastest first. -/
structure Cache where
  tiers : List Nat := []
deriving DecidableEq, Repr

namespace Cache

/-- A cache without tiers. -/
def disabled : Cache := {}

/-- The cache as its user sees it. -/
def files (cache : Cache) : FileCache Machine :=
  .levels (cache.tiers.map Machine.tierCache)

/-- Whether a get could ever find something. -/
def isAvailable (cache : Cache) : Bool := !cache.tiers.isEmpty

/-- Add a tier behind the others if it can be opened, and report it as ready or,
if it cannot, as `unavailable`. -/
def addTier (cache : Cache) (m : Machine) (location : Location) (budget : Nat)
    (extractDir : Option String) (unavailable : Event) :
    Cache × Machine × List Event :=
  match m.openTier location budget extractDir with
  | (.ok number, m, log) =>
    ({ tiers := cache.tiers ++ [number] }, m, log ++ [.tierReady location.text budget])
  | (.error _, m, log) => (cache, m, log ++ [unavailable])

/-- Put a cache together.  The disk tier needs a place as well as a budget. -/
def build (m : Machine) (diskLocation : Option String) (memoryBudget diskBudget : Nat)
    (extractDir : Option String) : Cache × Machine × List Event :=
  let (cache, m, memoryLog) :=
    if 0 < memoryBudget then
      disabled.addTier m .memory memoryBudget extractDir .memoryUnavailable
    else (disabled, m, [.memoryDisabled])
  let (cache, m, diskLog) :=
    match diskLocation with
    | some path =>
      if 0 < diskBudget then
        cache.addTier m (.file path) diskBudget extractDir (.diskUnavailable path)
      else (cache, m, [.diskDisabled])
    | none => (cache, m, [.diskDisabled])
  (cache, m, memoryLog ++ diskLog)

/-- A cache with a disk tier at `diskLocation`, writing payloads to the
directory for temporary files. -/
def create (m : Machine) (diskLocation : String) (memoryBudget diskBudget : Nat) :
    Cache × Machine × List Event :=
  build m (some diskLocation) memoryBudget diskBudget none

/-- A cache as the settings describe it. -/
def ofSettings (m : Machine) (env : Environment) (settings : Settings) :
    Cache × Machine × List Event :=
  let (diskLocation, log) : Option String × List Event :=
    if 0 < settings.diskBudget then
      match settings.diskLocation env with
      | .ok path => (some path, [])
      | .error _ => (none, [.diskUnlocated])
    else (none, [])
  let (cache, m, more) :=
    build m diskLocation settings.memoryBudget settings.diskBudget settings.extractDir
  (cache, m, log ++ more)

end Cache

end BlobCache
