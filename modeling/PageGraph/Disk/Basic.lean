import PageGraph.Disk.Entry
import PageGraph.Failure

/-!
# Disks

What the program asks of a disk, in any monad: the operations that read are a `Disk`, those that change
something a `Disk.Writer`. The program is written over these operations, so it runs on the file system of the
machine and on one that is a value (`FileSystem`) alike.
-/

namespace PageGraph

/-- What a disk tells of a file without opening it. -/
structure FileInfo where
  /-- The size in octets. -/
  size : Nat
  modified : Option Timestamp := none
  created : Option Timestamp := none
  deriving DecidableEq, Repr

/-- Reading from a disk. Paths are taken as the user wrote them, and links are followed. -/
structure Disk (m : Type → Type) where
  /-- The absolute path where relative paths start. -/
  currentDirectory : m String
  /-- Whether a path leads anywhere. -/
  isPresent : String → m Bool
  /-- Whether a path leads to a directory. -/
  isDirectory : String → m Bool
  /-- The place that a path leads to. -/
  canonicalize : String → m (Except IoFailure Place)
  /-- The octets of a file. -/
  read : String → m (Except IoFailure (List UInt8))
  /-- The tree at a place; directories that cannot be listed are empty in it. -/
  tree : Place → m (Entry FileInfo)

/-- Writing to a disk. -/
structure Disk.Writer (m : Type → Type) where
  /-- Whether a path leads to a directory. -/
  isDirectory : String → m Bool
  /-- Makes a directory inside one that exists. -/
  makeDirectory : String → m (Except IoFailure Unit)
  /-- Gives a file a text, and makes the file if it is missing. -/
  write : String → String → m (Except IoFailure Unit)

end PageGraph
