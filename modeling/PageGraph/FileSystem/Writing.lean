import PageGraph.FileSystem.Reading

/-!
# Changing a file system

Each operation changes one place, or fails and changes nothing. `FileSystem.writer` puts those together that the
program needs; the file system is the state in which they run.
-/

namespace PageGraph.FileSystem

/-- Makes a directory. A link at the end of the path is not followed. -/
def makeDirectory (files : FileSystem) (path : String) : Except IoFailure FileSystem := do
  let route ← Route.ofPath (some Route.maxLength) path
  match files.follow .name maxLinks (if route.absolute then [] else files.current) route.names with
  | .ok (.absent directory name) => .ok (files.put (directory ++ [name]) (.directory []))
  | .ok (.found _) => .error (.os .exists)
  | .error failure => .error (.os failure)

/-- Gives a file its octets, and makes it if it is missing. Links are followed, to a missing file too. -/
def write (files : FileSystem) (path : String) (octets : List UInt8) : Except IoFailure FileSystem := do
  match ← files.locate .write path with
  | .absent directory name => .ok (files.put (directory ++ [name]) (.file { octets }))
  | .found place =>
    match files.at? place with
    | some .directory => .error (.os .isDirectory)
    | _ => .ok (files.put place (.file { octets }))

/-- A step that may change the file system. -/
def attempt (step : FileSystem → Except IoFailure FileSystem) : StateM FileSystem (Except IoFailure Unit) := fun files =>
  match step files with
  | .ok changed => (.ok (), changed)
  | .error failure => (.error failure, files)

/-- A file system as a disk to write to. -/
def writer : Disk.Writer (StateM FileSystem) where
  isDirectory path := fun files => (files.isDirectory path, files)
  makeDirectory path := attempt (·.makeDirectory path)
  write path text := attempt (·.write path (Text.Utf8.encode text.toList))

end PageGraph.FileSystem
