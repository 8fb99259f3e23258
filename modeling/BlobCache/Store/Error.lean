/-!
# Why a store refuses

A store fails for one of five causes.  The cause says what the caller can do
about it; only a statement that the database refused is worth another try.
`StoreError.message` is the one place where a cause gets its wording.
-/

namespace BlobCache

/-- Why a store operation failed. -/
inductive StoreError where
  /-- The database at this location could not be opened or created. -/
  | cannotOpen (location : String)
  /-- The schema could not be brought up to date. -/
  | migration
  /-- The database carries another format version, or none. -/
  | unsupportedVersion (found : Option Int) (expected : Int)
  /-- The database refused a statement. -/
  | database
  /-- A stored value cannot be represented, or the other way round. -/
  | invalidData (what : String)
deriving DecidableEq, Repr

namespace StoreError

/-- The sentence shown for a store error. -/
def message : StoreError → String
  | cannotOpen location => "cannot open store: " ++ location
  | migration => "database migration error"
  | unsupportedVersion found expected =>
      "unsupported format version " ++ (found.map toString).getD "<missing>" ++
        " (expected " ++ toString expected ++ ")"
  | database => "database error"
  | invalidData what => "invalid store data: " ++ what

/-- Only a refused statement may succeed when it is tried again. -/
def isRetryable : StoreError → Bool
  | database => true
  | _ => false

end StoreError

end BlobCache
