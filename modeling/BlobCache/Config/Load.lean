import BlobCache.Config.Json
import BlobCache.Config.Platform
import BlobCache.Config.Toml
import BlobCache.Config.Variable
import BlobCache.Config.Yaml
import BlobCache.Event

/-!
# Loading the settings

The layers of a configuration, from the bottom: the defaults, a file, and the
environment.  The file is either the one the caller names, which has to exist
and to be of a known format, or the platform's own, which may be missing.
-/

namespace BlobCache

/-- The formats of configuration files. -/
inductive Format where
  | toml
  | yaml
  | json
deriving DecidableEq, Repr

namespace Format

/-- The format that an extension in small letters stands for. -/
def ofExtension? : String → Option Format
  | "toml" => some toml
  | "yaml" => some yaml
  | "yml" => some yaml
  | "json" => some json
  | _ => none

/-- The fields of a text in this format. -/
def fields? : Format → String → Option Fields
  | toml => Toml.fields?
  | yaml => Yaml.fields?
  | json => Json.fields?

end Format

/-- What stands behind the last full stop of a file's name, in small letters; a
full stop that begins the name does not count. -/
def extension (path : String) : String :=
  let parts := (partsOf '/' path).filter fun part => part ≠ "" && part ≠ "."
  let name := parts.getLast?.getD ""
  match (partsOf '.' name).reverse with
  | last :: stem :: more =>
    if name = ".." || (more.isEmpty && stem = "") then ""
    else String.ofList (last.toList.map Char.toLower)
  | _ => ""

/-- The text of the file that `path` names, unless it is no file. -/
def Disk.text? (disk : Disk) (base : Path) (path : String) :
    Option (Except ConfigError String) :=
  match disk.named? base path with
  | some (.file content) =>
    match String.fromUTF8? ⟨content.toArray⟩ with
    | some text => some (.ok text)
    | none => some (.error .invalid)
  | some (.database _) => some (.error .invalid)
  | _ => none

namespace Settings

/-- The fields of a file's text in a format. -/
def readFields (format : Format) (text : Except ConfigError String) :
    Except ConfigError Fields := do
  match format.fields? (← text) with
  | some fields => .ok fields
  | none => .error .invalid

/-- The layer of the file that `path` names. The file has to exist before its
format counts, and its format has to be known before it is read. -/
def fileLayer (disk : Disk) (base : Path) (path : String) :
    Except ConfigError (Except ConfigError Fields) :=
  match disk.text? base path with
  | none => .error (.notFound path)
  | some text =>
    match Format.ofExtension? (extension path) with
    | some format => .ok (readFields format text)
    | none => .error (.unsupportedFormat (extension path))

/-- The settings in the file that `path` names, without the environment. -/
def ofFile (disk : Disk) (base : Path) (path : String) : Except ConfigError Settings := do
  let fields ← fileLayer disk base path
  ofLayers [← fields]

/-- The settings in the file that `path` names, under those of the
environment. -/
def loadFrom (disk : Disk) (base : Path) (env : Environment) (path : String) :
    Except ConfigError Settings := do
  let fields ← fileLayer disk base path
  ofLayers [← fields, env.fields]

/-- The settings in the platform's configuration file, if there is one, under
those of the environment. -/
def load (disk : Disk) (base : Path) (env : Environment) :
    Except ConfigError Settings × List Event :=
  match env.configFile? with
  | none => (ofLayers [env.fields], [])
  | some path =>
    match disk.text? base path with
    | none => (ofLayers [env.fields], [.noConfiguration path])
    | some text =>
      (do ofLayers [← readFields .toml text, env.fields], [])

end Settings

end BlobCache
