import BlobCache.Store.Transaction

/-!
# Why a tier refuses

The causes for which an operation on a tier fails.  An error of the store stays
recognisable as such (`CacheError.store`), and it is worth another try exactly
when the store's own error is.
-/

namespace BlobCache

/-- Why an operation on a tier failed. -/
inductive CacheError where
  /-- The store failed. -/
  | store (cause : StoreError)
  /-- The contents of the store contradict themselves. -/
  | corruption (what : String)
  /-- The file to be cached could not be opened. -/
  | sourceUnavailable (path : String)
  /-- The file to be cached ended before its reported size was read. -/
  | truncatedInput (path : String)
  /-- The payload could not be written to the store. -/
  | storeWrite
  /-- The payload could not be written to a temporary file. -/
  | extract
  /-- The tier was closed by its owner. -/
  | closed
deriving DecidableEq, Repr

namespace CacheError

/-- The sentence shown for a cache error. -/
def message : CacheError → String
  | store cause => "store error: " ++ cause.message
  | corruption what => "cache corruption: " ++ what
  | sourceUnavailable path => "source unavailable: " ++ path
  | truncatedInput path => "truncated input: " ++ path
  | storeWrite => "failed to write payload to the store"
  | extract => "failed to extract payload"
  | closed => "tier is closed"

/-- Whether trying again might help. -/
def isRetryable : CacheError → Bool
  | store cause => cause.isRetryable
  | sourceUnavailable _ | truncatedInput _ | extract => true
  | corruption _ | storeWrite | closed => false

/-- The error that lies under a cache error, if there is one. -/
def cause? : CacheError → Option StoreError
  | store cause => some cause
  | _ => none

end CacheError

instance : Failure CacheError := ⟨.store, CacheError.message⟩

end BlobCache
