/-!
# Why a configuration is refused

None of these go away by themselves, so none is worth another try.
-/

namespace BlobCache

/-- Why a configuration could not be had. -/
inductive ConfigError where
  /-- A source cannot be read, or a setting has a value it cannot take. -/
  | invalid
  /-- There is no file at this path. -/
  | notFound (path : String)
  /-- Files with this extension are not read. -/
  | unsupportedFormat (extension : String)
  /-- Nothing says where the cache is to be. -/
  | noCacheDirectory
deriving DecidableEq, Repr

namespace ConfigError

/-- The sentence shown for a configuration error. -/
def message : ConfigError → String
  | invalid => "invalid configuration"
  | notFound path => "configuration file not found: " ++ path
  | unsupportedFormat extension => "unsupported configuration format: " ++ extension
  | noCacheDirectory =>
      "no cache directory available; configure a location explicitly"

/-- No configuration error goes away by itself. -/
def isRetryable (_ : ConfigError) : Bool := false

end ConfigError

end BlobCache
