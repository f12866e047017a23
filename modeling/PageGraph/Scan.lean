import PageGraph.Disk.Path
import PageGraph.Inventory
import PageGraph.Page
import PageGraph.Record.Json
import PageGraph.Settings

/-!
# Scanning a disk

What a run reads: its settings, the records of the template files, and the pages themselves. Reading stops at
the first problem, with one exception: a page that cannot be read is still a page, one without references.
-/

namespace PageGraph

/-- A step that may end in a problem. -/
abbrev Attempt (m : Type → Type) := ExceptT Problem m

namespace Disk

variable {m : Type → Type} [Monad m] (disk : Disk m)

/-- The text of a file, which has to be UTF-8 throughout. -/
def readText (path : String) : m (Except IoFailure String) := do
  match ← disk.read path with
  | .error failure => return .error failure
  | .ok octets =>
    match Text.Utf8.decode? octets with
    | some text => return .ok (String.ofList text)
    | none => return .error .notText

/-! ### Settings -/

/-- The name of the configuration file in the current directory. -/
def defaultConfiguration : String := "jsp-insights.toml"

/-- The settings in a configuration file. -/
def settingsIn (path : String) : Attempt m Settings := do
  match ← disk.readText path with
  | .error failure => throw (Problem.within { cause := .io failure } ("Failed to read configuration from " ++ path))
  | .ok text =>
    match Settings.parse? text with
    | some settings => return settings
    | none => throw (.ofFailure (.configInvalid path "the text is not a valid configuration"))

/-- The settings of a run. A file that was asked for has to be there; the file that the environment names, or
the default one, need not be. -/
def settings (requested environment : Option String) : Attempt m Settings := do
  match requested with
  | some path =>
    if ← disk.isPresent path then disk.settingsIn path else throw (.ofFailure (.configNotFound path))
  | none =>
    let path := environment.getD defaultConfiguration
    if ← disk.isPresent path then disk.settingsIn path else return {}

/-! ### Records -/

/-- The records of the template files below a directory. -/
def walk (layout : Layout) (storesDir : String) : Attempt m (List Record) := do
  unless ← disk.isDirectory storesDir do
    throw (.ofFailure (.storesDirNotFound storesDir))
  match ← disk.canonicalize storesDir with
  | .error failure => throw (Problem.within { cause := .io failure } ("Failed to canonicalize path: " ++ storesDir))
  | .ok base => return inventory layout base (← disk.tree base)

/-- The records in a data file. -/
def savedRecords (path : String) : Attempt m (List Record) := do
  match ← disk.readText path with
  | .error failure => throw (.ofFailure (.fileSystem "read" path failure))
  | .ok text =>
    match Record.ofFileText? text with
    | some records => return records
    | none => throw (.ofFailure .json)

/-- The records of a run: those of the data file that it starts from, or else those of the stores directory. -/
def records (settings : Settings) (saved : Option String) : Attempt m (List Record) :=
  match saved with
  | some path => disk.savedRecords path
  | none => disk.walk settings.layout settings.storesDir

/-! ### Pages -/

/-- The page path of the content root: of the place that it leads to, or of the path as it stands if it leads
nowhere. -/
def contentRoot (settings : Settings) : m String := do
  let path := settings.contentRootPath
  match ← disk.canonicalize path with
  | .ok place => return pageKey place.octets
  | .error _ =>
    if path.isEmpty ∨ DiskPath.isAbsolute path then return normalize path
    else return normalize (DiskPath.join (← disk.currentDirectory) path)

/-- The page of a record. -/
def page (resolver : Resolver) (record : Record) : m Page := do
  match ← disk.read record.path with
  | .ok octets => return Page.build resolver record (String.ofList (Text.Utf8.decodeLossy octets))
  | .error _ => return Page.ofRecord record []

/-- The corpus of some records. The search for references is made from the layout, whose size nothing limits, so this
step cannot fail (`Failure.invalidPattern`). -/
def corpus (settings : Settings) (records : List Record) : m Corpus := do
  let resolver := Resolver.below (← disk.contentRoot settings) settings.layout
  return Page.sort (← records.mapM (disk.page resolver))

end Disk

end PageGraph
