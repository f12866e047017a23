import PageGraph.CommandLine.Basic
import PageGraph.Page.Json
import PageGraph.Scan
import PageGraph.Tree.Drawing
import PageGraph.Tree.Expansion
import PageGraph.Tree.Json

/-!
# What a command does

A command first reads everything that it needs and then writes. So reading gives a `Plan`, which says what will
be written and printed, and a problem that comes up on the way has changed nothing. The plan of `tree` writes
no file; the other commands write theirs into the output directory, one after the other.
-/

namespace PageGraph

/-- What a command will write and print. -/
structure Plan where
  /-- The output directory. -/
  directory : String
  /-- The files to write there, by name. -/
  files : List (String × String) := []
  /-- What is printed when all is written. -/
  printed : String
  deriving DecidableEq, Repr

namespace Plan

/-- The data file of records. -/
def recordsFile : String := "jsp.json"

/-- The data file of pages. -/
def pagesFile : String := "shallow.json"

/-- The data file of trees. -/
def treesFile : String := "deep.json"

/-- The line that reports how much was written where, in front of it a green mark. -/
def reportLine (coloured quiet : Bool) (count : Nat) (what directory file : String) : String :=
  if quiet then ""
  else
    String.ofList (Colour.paintedIf coloured "32" ['✓']) ++ " " ++ String.ofList (Text.Decimal.digits count) ++ " " ++
      what ++ "(s) written to " ++ DiskPath.join directory file ++ "\n"

/-- The plan for the records of a walk. -/
def ofRecords (coloured quiet : Bool) (directory : String) (records : List Record) : Plan where
  directory
  files := [(recordsFile, Record.fileText records)]
  printed := reportLine coloured quiet records.length "page" directory recordsFile

/-- The plan for the pages of a corpus. -/
def ofPages (coloured quiet : Bool) (directory : String) (corpus : Corpus) : Plan where
  directory
  files := [(pagesFile, Page.fileText corpus)]
  printed := reportLine coloured quiet corpus.length "page" directory pagesFile

/-- The plan for the trees of a corpus. A summary that was asked for is printed in place of the report. -/
def ofTrees (coloured quiet summary : Bool) (directory : String) (corpus : Corpus) : Plan where
  directory
  files := [(pagesFile, Page.fileText corpus), (treesFile, Tree.fileText corpus.trees)]
  printed :=
    if summary then (Summary.of corpus corpus.trees).toJson.pretty ++ "\n"
    else reportLine coloured quiet corpus.trees.length "tree" directory treesFile

end Plan

/-! ### Showing a tree -/

/-- The forms in which a tree is shown. -/
inductive TreeFormat where
  | drawing
  | json
  deriving DecidableEq, Repr

/-- The form that has a name. -/
def TreeFormat.ofName? : String → Option TreeFormat
  | "tree" => some .drawing
  | "json" => some .json
  | _ => none

/-- A tree in a form. The depth limits a drawing only. -/
def TreeFormat.render (format : TreeFormat) (coloured : Bool) (depth : Option Nat) (tree : Tree) : String :=
  match format with
  | .drawing => tree.draw depth coloured
  | .json => tree.toJson.pretty ++ "\n"

/-- The form with a name, if a tree can be shown in it down to a depth. -/
def treeFormat (name : String) (depth : Option Nat) : Except Problem TreeFormat :=
  match TreeFormat.ofName? name with
  | none => .error (.ofFailure (.invalidFormat name))
  | some format => if depth = some 0 then .error { cause := .text "Depth must be at least 1" } else .ok format

/-- The tree of the first of some paths that is the path of a page. -/
def Corpus.firstTree? (corpus : Corpus) (paths : List String) : Option Tree := paths.findSome? corpus.tree?

/-! ### Plans -/

/-- Settings with the directories that the command line gives. -/
def Settings.under (settings : Settings) (invocation : Invocation) : Settings :=
  { settings with
    storesDir := invocation.storesDir.getD settings.storesDir
    outputDir := invocation.outputDir.getD settings.outputDir }

namespace Disk

variable {m : Type → Type} [Monad m] (disk : Disk m)

/-- The page paths that a name may stand for, the first one first: the place that it leads to on the disk, the
name itself, and the name below the content root. -/
def pagePaths (settings : Settings) (name : String) : m (List String) := do
  let onDisk := (← disk.canonicalize name).toOption.map fun place => pageKey place.octets
  return onDisk.toList ++ [normalize name, join (← disk.contentRoot settings) name]

/-- The corpus of a run. -/
def scan (settings : Settings) (saved : Option String) : Attempt m Corpus := do
  disk.corpus settings (← disk.records settings saved)

/-- The plan of a command under some settings. -/
def planOf (coloured quiet : Bool) (settings : Settings) : Command → Attempt m Plan
  | .raw => do
    return .ofRecords coloured quiet settings.outputDir (← disk.records settings none)
  | .shallow saved => do
    return .ofPages coloured quiet settings.outputDir (← disk.scan settings saved)
  | .deep saved summary => do
    return .ofTrees coloured quiet summary settings.outputDir (← disk.scan settings saved)
  | .tree page depth format saved => do
    let format ← ExceptT.mk (pure (treeFormat format depth))
    let corpus ← disk.scan settings saved
    match corpus.firstTree? (← disk.pagePaths settings page) with
    | some tree => return { directory := settings.outputDir, printed := format.render coloured depth tree }
    | none => throw (.ofFailure (.pageNotFound page))

/-- The plan of an invocation. -/
def plan (coloured : Bool) (environment : Option String) (invocation : Invocation) : Attempt m Plan := do
  let settings ← disk.settings invocation.configuration environment
  disk.planOf coloured invocation.quiet (settings.under invocation) invocation.command

end Disk

end PageGraph
