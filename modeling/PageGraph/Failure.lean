/-!
# Failures

What can go wrong at the surface of the program, as causes: a file that is missing, a text that cannot be
read, a page that is not there. The graph itself never fails. `Failure.message` has the wording of every cause.

A problem is a cause with the contexts that were added to it on its way; `Problem.report` makes of it what the
user sees: a failure, details and a suggestion.
-/

namespace PageGraph

/-! ### Failures of the operating system -/

/-- The errors of the operating system that file operations meet. -/
inductive OsError where
  | notPermitted
  | notFound
  | denied
  | exists
  | notDirectory
  | isDirectory
  | nameTooLong
  | tooManyLinks
  deriving DecidableEq, Repr

namespace OsError

/-- The number of an error. -/
def code : OsError → Nat
  | .notPermitted => 1
  | .notFound => 2
  | .denied => 13
  | .exists => 17
  | .notDirectory => 20
  | .isDirectory => 21
  | .nameTooLong => 36
  | .tooManyLinks => 40

/-- The description of an error. -/
def description : OsError → String
  | .notPermitted => "Operation not permitted"
  | .notFound => "No such file or directory"
  | .denied => "Permission denied"
  | .exists => "File exists"
  | .notDirectory => "Not a directory"
  | .isDirectory => "Is a directory"
  | .nameTooLong => "File name too long"
  | .tooManyLinks => "Too many levels of symbolic links"

/-- All errors. -/
def all : List OsError :=
  [.notPermitted, .notFound, .denied, .exists, .notDirectory, .isDirectory, .nameTooLong, .tooManyLinks]

/-- The error with a number. -/
def ofCode? (code : Nat) : Option OsError := all.find? (·.code = code)

/-- An error with its number, as it is shown. -/
def message (error : OsError) : String := error.description ++ " (os error " ++ toString error.code ++ ")"

end OsError

/-- A failed input or output operation. -/
inductive IoFailure where
  /-- The operating system refused it. -/
  | os (error : OsError)
  /-- Something else was wrong; `denied` says whether it is a matter of permissions. -/
  | other (message : String) (denied : Bool)
  deriving DecidableEq, Repr

namespace IoFailure

/-- The wording of a failed operation. -/
def message : IoFailure → String
  | .os error => error.message
  | .other message _ => message

/-- Whether an operation failed for want of permissions. -/
def isDenied : IoFailure → Bool
  | .os error => error = .notPermitted ∨ error = .denied
  | .other _ denied => denied

/-- A path holds a NUL. -/
def nulInPath : IoFailure := .other "file name contained an unexpected NUL byte" false

/-- A file that should be a text is none. -/
def notText : IoFailure := .other "stream did not contain valid UTF-8" false

end IoFailure

/-! ### Failures of the program -/

/-- Why a run fails. -/
inductive Failure where
  /-- The configuration file that was asked for does not exist. -/
  | configNotFound (path : String)
  /-- A configuration file is no TOML, or says something of the wrong type. -/
  | configInvalid (path reason : String)
  /-- There is no directory to walk. -/
  | storesDirNotFound (path : String)
  /-- An operation on a file failed. -/
  | fileSystem (operation path : String) (cause : IoFailure)
  /-- A page that was asked for is not there. -/
  | pageNotFound (path : String)
  /-- The search for references takes more room than an engine of patterns allows. Here the search is a function of the
  layout (`references`) and takes none, so no run ends so; what is kept is the wording. -/
  | invalidPattern (pattern : String)
  /-- An output format is not known. -/
  | invalidFormat (format : String)
  /-- A data file does not hold what it should. -/
  | json
  /-- An operation failed, on no particular file. -/
  | io (cause : IoFailure)
  | other (message : String)
  deriving DecidableEq, Repr

/-- The wording of a failure. -/
def Failure.message : Failure → String
  | .configNotFound path => "Configuration file not found: " ++ path
  | .configInvalid path _ => "Invalid configuration file syntax in " ++ path
  | .storesDirNotFound path => "Stores directory not found: " ++ path
  | .fileSystem operation path _ => "File system error during " ++ operation ++ ": " ++ path
  | .pageNotFound path => "Page '" ++ path ++ "' is not part of the scanned corpus"
  | .invalidPattern pattern => "Invalid reference pattern: " ++ pattern
  | .invalidFormat format => "Unknown output format '" ++ format ++ "'"
  | .json => "JSON serialization error"
  | .io cause => "IO error: " ++ cause.message
  | .other message => message

/-! ### Reports -/

/-- What the user is told. -/
structure Report where
  failure : Failure
  details : Option String := none
  suggestion : Option String := none
  deriving DecidableEq, Repr

namespace Report

/-- The report of a failure, with the details and the suggestion that belong to it. -/
def ofFailure (failure : Failure) : Report :=
  match failure with
  | .configNotFound _ =>
    { failure, suggestion := some "Check the --config path, or omit it to use built-in defaults" }
  | .configInvalid _ reason =>
    { failure, details := some reason,
      suggestion := some "Check the TOML syntax and field names in your configuration file" }
  | .storesDirNotFound _ =>
    { failure, details := some "Relative paths are resolved against the current working directory",
      suggestion := some "Set `stores_dir` in jsp-insights.toml to the directory holding WebContent" }
  | .fileSystem _ _ cause => { failure, details := some cause.message }
  | .pageNotFound _ =>
    { failure, details := some "Only .jsp and .jspf files under the stores directory are scanned",
      suggestion := some "Pass the absolute path as it appears in shallow.json" }
  | .invalidFormat _ => { failure, suggestion := some "Use one of: tree, json" }
  | _ => { failure }

/-- The report as one text. -/
def toText (report : Report) : String :=
  report.failure.message ++ (report.details.elim "" ("\nDetails: " ++ ·)) ++
    (report.suggestion.elim "" ("\nSuggestion: " ++ ·))

/-- The report as it is shown at the end of a run, one line for each of its parts. -/
def shown (report : Report) : String :=
  "error: " ++ report.failure.message ++ "\n" ++ (report.details.elim "" ("details: " ++ · ++ "\n")) ++
    (report.suggestion.elim "" ("suggestion: " ++ · ++ "\n"))

end Report

/-! ### Problems -/

/-- What a problem goes back to. -/
inductive Cause where
  | failure (reason : Failure)
  | io (reason : IoFailure)
  | text (message : String)
  deriving DecidableEq, Repr

/-- The wording of a cause. -/
def Cause.message : Cause → String
  | .failure reason => reason.message
  | .io reason => reason.message
  | .text message => message

/-- A cause with the contexts that were added to it, the latest first. -/
structure Problem where
  cause : Cause
  contexts : List String := []
  deriving DecidableEq, Repr

namespace Problem

/-- The problem of a failure. -/
def ofFailure (failure : Failure) : Problem := { cause := .failure failure }

/-- A problem with one more context. -/
def within (problem : Problem) (context : String) : Problem :=
  { problem with contexts := context :: problem.contexts }

/-- What the user is told of a problem. A failure speaks for itself, and so does a lack of permissions; anything
else is told from the outermost context inwards. -/
def report (problem : Problem) : Report :=
  let chain := problem.contexts ++ [problem.cause.message]
  let told : Report := {
    failure := .other (chain.headD "")
    details := if chain.length ≤ 1 then none else some (": ".intercalate chain.tail) }
  match problem.cause with
  | .failure failure => .ofFailure failure
  | .io failure =>
    if failure.isDenied then
      { failure := .io failure,
        suggestion := some "Check file ownership and permissions of the stores and output directories" }
    else told
  | .text _ => told

end Problem

end PageGraph
