import PageGraph.FileSystem.Resolution

/-!
# Reading from a file system

The operations of a disk on a file system that is a value. `FileSystem.disk` puts them together; nothing
changes under them.
-/

namespace PageGraph.FileSystem

/-- The place that a path leads to when it is followed for a purpose. -/
def place? (files : FileSystem) (purpose : Purpose) (path : String) : Except IoFailure Place := do
  match ← files.locate purpose path with
  | .found place => .ok place
  | .absent _ _ => .error (.os .notFound)

/-- The place that a path leads to. -/
def canonicalize (files : FileSystem) (path : String) : Except IoFailure Place := files.place? .spellOut path

/-- What is at the end of a path. -/
def entry? (files : FileSystem) (path : String) : Except IoFailure (Entry File) := do
  match files.get? (← files.place? .look path) with
  | some entry => .ok entry
  | none => .error (.os .notFound)

/-- Whether a path leads anywhere. -/
def isPresent (files : FileSystem) (path : String) : Bool := (files.place? .look path).isOk

/-- Whether a path leads to a directory. -/
def isDirectory (files : FileSystem) (path : String) : Bool := (files.entry? path).toOption.any (·.isDirectory)

/-- The octets of a file. -/
def read (files : FileSystem) (path : String) : Except IoFailure (List UInt8) := do
  match ← files.entry? path with
  | .file content => .ok content.octets
  | _ => .error (.os .isDirectory)

/-- The tree at a place, with what a disk tells of each file. No disk tells anything of a place whose path is too
long. -/
def tree (files : FileSystem) (place : Place) : Entry FileInfo :=
  (((files.get? place).getD (.directory [])).within (Route.maxLength - (place.flatMap (Place.slash :: ·)).length)).map
    File.info

/-- A file system as a disk to read from. -/
def disk (files : FileSystem) : Disk Id where
  currentDirectory := Text.Utf8.decodeLossy files.current.octets |> String.ofList
  isPresent := files.isPresent
  isDirectory := files.isDirectory
  canonicalize := files.canonicalize
  read := files.read
  tree := files.tree

end PageGraph.FileSystem
