import PageGraph.Disk.Basic

/-!
# File systems as values

A file system is a directory tree and the place where relative paths start. `at?` looks at one place and says
what is there; the operations that change a file system put something into one place.
-/

namespace PageGraph

/-- A file: its octets, and its times as far as they are known. -/
structure File where
  octets : List UInt8
  modified : Option Timestamp := none
  created : Option Timestamp := none
  deriving DecidableEq, Repr, Inhabited

/-- What a disk tells of a file. -/
def File.info (file : File) : FileInfo := { size := file.octets.length, modified := file.modified, created := file.created }

/-- A file system. -/
structure FileSystem where
  /-- The tree below the root, which is a directory. -/
  root : Entry File
  /-- Where relative paths start. -/
  current : Place
  deriving Inhabited

namespace FileSystem

/-- The entry at a place. -/
def get? (files : FileSystem) (place : Place) : Option (Entry File) := files.root.get? place

/-- Changes what is at a place. -/
def alter (files : FileSystem) (change : Option (Entry File) → Option (Entry File)) (place : Place) : FileSystem :=
  { files with root := (Entry.alter change place (some files.root)).getD files.root }

/-- Puts an entry into a place whose directory exists. -/
def put (files : FileSystem) (place : Place) (entry : Entry File) : FileSystem := files.alter (fun _ => some entry) place

/-- What is at a single place: the file, the target of the link, or that it is a directory. -/
inductive Node where
  | file (content : File)
  | directory
  | link (path : List UInt8)
  deriving DecidableEq, Repr

/-- An entry without what lies below it. -/
def Node.ofEntry : Entry File → Node
  | .file content => .file content
  | .directory _ => .directory
  | .link path => .link path

/-- What is at a place. -/
def at? (files : FileSystem) (place : Place) : Option Node := (files.get? place).map Node.ofEntry

end FileSystem

end PageGraph
