import PageGraph.CommandLine.Arguments
import PageGraph.CommandLine.Plan
import PageGraph.Disk.Writing
import PageGraph.FileSystem.Writing

/-!
# Running a command line

A command line is read, its command is planned, and the plan is carried out. `FileSystem.run` is a run on a file
system that is a value: it gives the outcome and the file system afterwards. Its words and what the environment names
are texts, so words that are not UTF-8 are left out, and it ends before anything is printed, so nothing can go wrong
with the standard output.
-/

namespace PageGraph

/-- How a run ends. -/
inductive Outcome where
  /-- Well, with what is printed. -/
  | finished (printed : String)
  /-- With a failure. -/
  | failed (report : Report)
  /-- Without a command. -/
  | refused (usage : Usage)
  deriving DecidableEq, Repr

/-- The exit code of a run. -/
def Outcome.exitCode : Outcome → Nat
  | .finished _ => 0
  | .failed _ => 1
  | .refused usage => usage.exitCode

namespace Disk.Writer

variable {m : Type → Type} [Monad m] (writer : Disk.Writer m)

/-- Writes a file into a directory, which is made first if it is missing. -/
def writeInto (directory name text : String) : Attempt m Unit := do
  match ← writer.makeDirectories directory with
  | .error failure => throw (.ofFailure (.fileSystem "create directory" directory failure))
  | .ok () =>
    let path := DiskPath.join directory name
    match ← writer.write path text with
    | .error failure => throw (.ofFailure (.fileSystem "write" path failure))
    | .ok () => return ()

/-- Writes some files into a directory, up to the first that fails. -/
def writeAll (directory : String) : List (String × String) → Attempt m Unit
  | [] => return ()
  | (name, text) :: rest => do
    writer.writeInto directory name text
    writeAll directory rest

/-- Carries out a plan. -/
def carryOut (plan : Plan) : m Outcome := do
  match ← (writer.writeAll plan.directory plan.files).run with
  | .ok () => return .finished plan.printed
  | .error problem => return .failed problem.report

end Disk.Writer

/-- A run on a file system, with what is printed in colours or not, in an environment that may name a configuration
file. -/
def FileSystem.run (files : FileSystem) (coloured : Bool) (environment : Option String) (words : List String) :
    Outcome × FileSystem :=
  match CommandLine.parse words with
  | .error usage => (.refused usage, files)
  | .ok invocation =>
    match (files.disk.plan coloured environment invocation).run with
    | .error problem => (.failed problem.report, files)
    | .ok plan => (FileSystem.writer.carryOut plan).run files

end PageGraph
