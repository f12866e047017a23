import PageGraph.Disk.Basic
import PageGraph.Disk.Path

/-!
# Writing into a directory

A file is written into a directory that need not be there: `makeDirectories` makes it, and before it those
above it that are missing. What has been made stays if a later step fails.
-/

namespace PageGraph.Disk.Writer

variable {m : Type → Type} [Monad m] (writer : Disk.Writer m)

/-- Why a directory cannot be made when nothing above it is there. -/
def nothingAbove : IoFailure := .other "failed to create whole tree" false

/-- The result of making a directory that is needed: a failure does not count if the directory is there. -/
def unlessPresent (path : String) (result : Except IoFailure Unit) : m (Except IoFailure Unit) := do
  match result with
  | .ok () => return .ok ()
  | .error failure => if ← writer.isDirectory path then return .ok () else return .error failure

/-- Makes the first of some directories, each of which lies in the next; those that are missing are made
before it. -/
def makeChain : List String → m (Except IoFailure Unit)
  | [] => return .error nothingAbove
  | path :: above => do
    if path.isEmpty then return .ok ()
    else
      match ← writer.makeDirectory path with
      | .error (.os .notFound) =>
        match ← makeChain above with
        | .error failure => return .error failure
        | .ok () => writer.unlessPresent path (← writer.makeDirectory path)
      | result => writer.unlessPresent path result

/-- Makes a directory, and those above it that are missing. -/
def makeDirectories (path : String) : m (Except IoFailure Unit) := writer.makeChain (DiskPath.ancestors path)

end PageGraph.Disk.Writer
