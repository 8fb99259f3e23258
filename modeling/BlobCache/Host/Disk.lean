import BlobCache.Store.Database

/-!
# Files and directories

A disk is a list of paths with what is found there: a directory, a file, or a
file that holds a database, which is kept elsewhere under a number.  Every
path on it lies in a directory; the root is always there.

A path in words is read against a directory to start from: empty parts and `.`
stand still, `..` goes up from a directory that exists, and a leading slash
starts at the root.
-/

namespace BlobCache

/-- The names that lead from the root to a file or directory. -/
abbrev Path := List String

/-- What is found at a path. -/
inductive Node where
  | directory
  | file (content : Bytes)
  /-- A file that holds the database with this number. -/
  | database (number : Nat)
deriving DecidableEq, Repr

/-- The parts of a text between its marks; without marks it is one part. -/
def partsOf (mark : Char) (text : String) : List String :=
  (text.toList.splitOn mark).map String.ofList

/-- Whether a path in words can only mean a directory. -/
def demandsDirectory (text : String) : Bool :=
  match (partsOf '/' text).getLast? with
  | some last => last = "" || last = "." || last = ".."
  | none => true

/-- Whether a path in words starts at the root. -/
def isAbsolute (text : String) : Bool := text.toList.head? = some '/'

/-- One path below another, in words. -/
def joinPath (base name : String) : String :=
  if base.toList.getLast? = some '/' then base ++ name else base ++ "/" ++ name

/-- Files and directories by path. -/
structure Disk where
  nodes : List (Path × Node) := []

namespace Disk

/-- What is found at a path. -/
def find? (disk : Disk) (path : Path) : Option Node :=
  if path = [] then some .directory
  else (disk.nodes.find? fun node => node.1 = path).map (·.2)

def isDirectory (disk : Disk) (path : Path) : Bool :=
  disk.find? path = some .directory

/-- Follow the parts of a path from `path` on. -/
def follow (disk : Disk) : Path → List String → Option Path
  | path, [] => some path
  | path, part :: rest =>
    if part = "" || part = "." then disk.follow path rest
    else if part = ".." then
      if disk.isDirectory path then disk.follow path.dropLast rest else none
    else if part.utf8ByteSize ≤ 255 && !part.toList.contains '\x00' then
      disk.follow (path ++ [part]) rest
    else none

/-- The path that `text` means to somebody in the directory `base`. -/
def resolve (disk : Disk) (base : Path) (text : String) : Option Path :=
  if text = "" then none
  else disk.follow (if isAbsolute text then [] else base) (partsOf '/' text)

/-- What `text` names to somebody in the directory `base`. -/
def named? (disk : Disk) (base : Path) (text : String) : Option Node := do
  let path ← disk.resolve base text
  let node ← disk.find? path
  if demandsDirectory text && node ≠ .directory then none else some node

/-- Put `node` at `path` in place of what was there. -/
def put (disk : Disk) (path : Path) (node : Node) : Disk :=
  { nodes := disk.nodes.filter (fun other => other.1 ≠ path) ++ [(path, node)] }

/-- Make the directory `path` and those it lies in; refused if one of them is a
file. -/
def makeDirectories (disk : Disk) (path : Path) : Option Disk :=
  ((List.range path.length).map fun n => path.take (n + 1)).foldlM
    (fun disk above =>
      match disk.find? above with
      | none => some (disk.put above .directory)
      | some .directory => some disk
      | some _ => none)
    disk

/-- The path at which a file named by `text` is or could be made: its directory
exists, and it is no directory itself. -/
def filePath? (disk : Disk) (base : Path) (text : String) : Option Path := do
  let path ← disk.resolve base text
  if demandsDirectory text || disk.isDirectory path ||
      !disk.isDirectory path.dropLast then
    none
  else
    some path

/-- Write a file. -/
def write (disk : Disk) (base : Path) (text : String) (content : Bytes) :
    Option Disk := do
  let path ← disk.filePath? base text
  some (disk.put path (.file content))

/-- Remove a file. -/
def remove (disk : Disk) (base : Path) (text : String) : Option Disk := do
  let node ← disk.named? base text
  let path ← disk.resolve base text
  if node = .directory then none
  else some { nodes := disk.nodes.filter fun other => other.1 ≠ path }

/-- Remove a directory with all that lies in it. -/
def removeTree (disk : Disk) (base : Path) (text : String) : Option Disk := do
  let node ← disk.named? base text
  let path ← disk.resolve base text
  if node ≠ .directory || path = [] then none
  else some { nodes := disk.nodes.filter fun other => !path.isPrefixOf other.1 }

/-- The number of things that lie directly in a directory. -/
def count (disk : Disk) (base : Path) (text : String) : Nat :=
  match disk.resolve base text with
  | some path =>
    if disk.isDirectory path then
      (disk.nodes.filter fun other => other.1 ≠ [] && other.1.dropLast = path).length
    else 0
  | none => 0

end Disk

end BlobCache
