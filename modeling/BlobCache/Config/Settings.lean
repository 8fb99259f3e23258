import BlobCache.Config.Error
import BlobCache.Config.Value
import BlobCache.Word

/-!
# Settings

The four settings of a cache and how they are read out of layered sources.  A
setting is looked at only after all layers are merged, so a value of the wrong
kind that a later layer replaces does no harm, and keys that are no settings
are not looked at (`Settings.ofFields?`).

The defaults say nothing about the two paths; a path that nobody sets, or that
is set to null, stays unset.
-/

namespace BlobCache

/-- What can be set about a cache.  A budget of zero disables its tier. -/
structure Settings where
  /-- The file of the disk tier; the platform's cache directory if unset. -/
  location : Option String := none
  memoryBudget : Nat := 4194304
  diskBudget : Nat := 67108864
  /-- Where payloads are written to; the temporary directory if unset. -/
  extractDir : Option String := none
deriving DecidableEq, Repr

namespace Settings

/-- The layer below all sources. -/
def defaults : Fields :=
  [("memory_budget", .integer (({} : Settings).memoryBudget)),
    ("disk_budget", .integer (({} : Settings).diskBudget))]

/-- The budget that a value stands for. -/
def budget? : Value → Option Nat
  | .integer n => if 0 ≤ n ∧ n ≤ wordMax then some n.toNat else none
  | _ => none

/-- The path that a value stands for; the outer option says whether it stands
for one or for none. -/
def path? : Value → Option (Option String)
  | .text s => some (some s)
  | .null => some none
  | _ => none

/-- The settings that merged sources stand for, if every one of them has a
value it can take. -/
def ofFields? (fields : Fields) : Option Settings := do
  let location ← path? ((fields.get? "location").getD .null)
  let memoryBudget ← match fields.get? "memory_budget" with
    | some value => budget? value
    | none => some ({} : Settings).memoryBudget
  let diskBudget ← match fields.get? "disk_budget" with
    | some value => budget? value
    | none => some ({} : Settings).diskBudget
  let extractDir ← path? ((fields.get? "extract_dir").getD .null)
  some { location, memoryBudget, diskBudget, extractDir }

/-- The settings that come of layered sources, later ones on top. -/
def ofLayers (layers : List Fields) : Except ConfigError Settings :=
  match ofFields? (layers.foldl Fields.merge defaults) with
  | some settings => .ok settings
  | none => .error .invalid

end Settings

end BlobCache
