import PageGraph.CommandLine.Run

/-!
# The program

The operations of a disk on the machine's own file system, and the program that runs on it. Nothing is decided
here: the command line is read, planned and carried out by the library. Colours are shown on a terminal; variables that
switch them on or off are not read.
-/

namespace PageGraph.Machine

/-! ### Failures -/

/-- The code and the description of an error, if it has a code. -/
def coded? : IO.Error → Option (UInt32 × String)
  | .alreadyExists _ code details | .invalidArgument _ code details | .permissionDenied _ code details
  | .resourceExhausted _ code details | .inappropriateType _ code details | .noSuchThing _ code details => some (code, details)
  | .otherError code details | .resourceBusy code details | .resourceVanished code details
  | .unsupportedOperation code details | .hardwareFault code details | .unsatisfiedConstraints code details
  | .illegalOperation code details | .protocolError code details | .timeExpired code details => some (code, details)
  | .interrupted _ code details | .noFileOrDirectory _ code details => some (code, details)
  | .unexpectedEof | .userError _ => none

/-- The number of an error with a code, which holds the number or its negative. -/
def numberOf (code : UInt32) : Nat := code.toInt32.toInt.natAbs

/-- An error as a failure. -/
def failureOf (error : IO.Error) : IoFailure :=
  match coded? error with
  | none => .other (toString error) false
  | some (code, details) =>
    match OsError.ofCode? (numberOf code) with
    | some known => .os known
    | none => .other (details ++ " (os error " ++ toString (numberOf code) ++ ")") false

/-- The result of an action, or how it failed. -/
def attempt {α : Type} (path : String) (action : IO α) : IO (Except IoFailure α) :=
  if path.toList.contains (Char.ofNat 0) then return .error .nulInPath
  else do
    try return .ok (← action)
    catch error => return .error (failureOf error)

/-! ### The disk -/

/-- What the machine tells of an entry, links followed. -/
def metadata? (path : String) : IO (Option IO.FS.Metadata) := do
  return (← attempt path (System.mkFilePath [path]).metadata).toOption

/-- Whether a path leads to a directory. -/
def isDirectory (path : String) : IO Bool := do
  return (← metadata? path).any fun found => found.type matches .dir

/-- What is recorded of a file. -/
def infoOf (found : IO.FS.Metadata) : FileInfo where
  size := found.byteSize.toNat
  modified := Timestamp.ofEpoch? found.modified.sec found.modified.nsec.toNat

/-- The tree at a path. An entry that cannot be looked at is left out. -/
partial def treeAt (path : String) : IO (Entry FileInfo) := do
  let listed ← attempt path (System.mkFilePath [path]).readDir
  let mut entries := #[]
  for item in listed.toOption.getD #[] do
    let name := Text.Utf8.encode item.fileName.toList
    match (← attempt path item.path.symlinkMetadata).toOption with
    | none => pure ()
    | some found =>
      match found.type with
      | .dir => entries := entries.push (name, ← treeAt item.path.toString)
      | .file => entries := entries.push (name, .file (infoOf found))
      | .symlink => entries := entries.push (name, .link [])
      | .other => pure ()
  return .directory entries.toList

/-- The place with a path. -/
def placeOf (path : String) : Place := (Route.ofOctets (Text.Utf8.encode path.toList)).names

/-- The machine's disk to read from. -/
def disk : Disk IO where
  currentDirectory := return (← IO.currentDir).toString
  isPresent path := return (← metadata? path).isSome
  isDirectory := isDirectory
  canonicalize path := do
    return (← attempt path (IO.FS.realPath path)).map fun found => placeOf found.toString
  read path := do
    return (← attempt path (IO.FS.readBinFile path)).map fun octets => octets.toList
  tree place := treeAt (String.ofList (Text.Utf8.decodeLossy place.octets))

/-- The machine's disk to write to. -/
def writer : Disk.Writer IO where
  isDirectory := isDirectory
  makeDirectory path := attempt path (IO.FS.createDir path)
  write path text := attempt path (IO.FS.writeFile path text)

/-! ### Runs -/

/-- The variable that names the configuration file. -/
def configurationVariable : String := "JSP_INSIGHTS_CONFIG"

/-- Runs a command line. -/
def run (coloured : Bool) (words : List String) : IO Outcome := do
  match CommandLine.parse words with
  | .error usage => return .refused usage
  | .ok invocation =>
    let environment ← IO.getEnv configurationVariable
    match ← (disk.plan coloured environment invocation).run with
    | .error problem => return .failed problem.report
    | .ok plan => writer.carryOut plan

end PageGraph.Machine

open PageGraph in
/-- Runs the words of the command line and tells how it went. -/
def main (words : List String) : IO UInt32 := do
  let out ← IO.getStdout
  let outcome ← Machine.run (← out.isTty) words
  match outcome with
  | .finished printed => out.putStr printed
  | .failed report => IO.eprint report.shown
  | .refused usage => if usage.exitCode = 0 then out.putStr usage.message else IO.eprint usage.message
  return UInt32.ofNat outcome.exitCode
