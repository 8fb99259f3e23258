import BlobCache.Config.Settings
import BlobCache.Host.Disk

/-!
# Where things are on this platform

The configuration file and the database have their places in directories that
the environment names.  A variable counts only if it holds an absolute path;
otherwise the place is below the home directory.
-/

namespace BlobCache

/-- The variables of a process, by name. -/
abbrev Environment := List (String × String)

namespace Environment

/-- The value of a variable. -/
def get? (env : Environment) (name : String) : Option String :=
  (env.find? fun var => var.1 = name).map (·.2)

/-- The home directory. -/
def home? (env : Environment) : Option String := do
  let home ← env.get? "HOME"
  if home = "" then none else some home

/-- The directory that `name` holds, or else the directory `below` the home
directory; without a home directory there are no such directories at all. -/
def directory? (env : Environment) (name below : String) : Option String := do
  let home ← env.home?
  match env.get? name with
  | some path => if isAbsolute path then some path else some (joinPath home below)
  | none => some (joinPath home below)

/-- The configuration file. -/
def configFile? (env : Environment) : Option String := do
  let directory ← env.directory? "XDG_CONFIG_HOME" ".config"
  some (joinPath (joinPath directory "stash") "config.toml")

/-- The database of the disk tier. -/
def databaseFile? (env : Environment) : Option String := do
  let directory ← env.directory? "XDG_CACHE_HOME" ".cache"
  some (joinPath (joinPath directory "stash") "cache.sqlite")

end Environment

/-- The file of the disk tier: the one that is set, or else the platform's. -/
def Settings.diskLocation (settings : Settings) (env : Environment) :
    Except ConfigError String :=
  match settings.location with
  | some location => .ok location
  | none =>
    match env.databaseFile? with
    | some file => .ok file
    | none => .error .noCacheDirectory

end BlobCache
