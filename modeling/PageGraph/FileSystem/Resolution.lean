import PageGraph.FileSystem.Basic
import PageGraph.Text.Utf8

/-!
# Following paths

A path is followed name by name from the root or from the current directory. `.` stays, `..` goes to the
directory above, also behind a link, and a link is replaced by the names of its target. A path may end in a name that is
not there: `Target.absent` says where it would be. Anything else that is missing fails.

What a path is followed for (`Purpose`) decides on its end: whether a link there is followed, and whether a slash
behind the last name is refused. It also decides which length is limited: that of the path, or, where the place is
to be spelled out, that of every place on the way.

At most `maxLinks` links are followed on one way, so following ends on every file system: `followNames` uses up
names, and `follow` goes on behind a link with one link less.
-/

namespace PageGraph

/-- A path taken apart into names. -/
structure Route where
  /-- Whether it starts at the root. -/
  absolute : Bool
  names : List Name
  /-- Whether a slash at its end asks for a directory. -/
  trailingSlash : Bool
  deriving DecidableEq, Repr

namespace Route

/-- The name of a directory itself. -/
def here : Name := [46]

/-- The name of the directory above. -/
def up : Name := [46, 46]

/-- The longest path, in octets. -/
def maxLength : Nat := 4095

/-- The longest name, in octets. -/
def maxNameLength : Nat := 255

/-- The names in a path. -/
def ofOctets (octets : List UInt8) : Route where
  absolute := octets.head? = some Place.slash
  names := (octets.splitOnP (· = Place.slash)).filter (!·.isEmpty)
  trailingSlash := octets.getLast? = some Place.slash

/-- The names in a path that is at most so long, unless no file system takes the path. -/
def ofPath (longest : Option Nat) (path : String) : Except IoFailure Route :=
  let octets := Text.Utf8.encode path.toList
  if 0 ∈ octets then .error .nulInPath
  else if octets = [] then .error (.os .notFound)
  else if longest.any (· < octets.length) then .error (.os .nameTooLong)
  else .ok (ofOctets octets)

/-- The names to follow. An empty name at the end stands for the slash there, which asks for a directory. -/
def steps (route : Route) : List Name := route.names ++ (if route.trailingSlash then [[]] else [])

end Route

/-- What a path is followed for. -/
inductive Purpose where
  /-- To look at what is there. -/
  | look
  /-- To say in which place it is. -/
  | spellOut
  /-- To make a file there, or to write over it. A slash behind its name is refused. -/
  | write
  /-- To deal with the entry at the end itself, even if it is a link. -/
  | name
  deriving DecidableEq, Repr

/-- The greatest length of a path that is followed. Where the place is spelled out there is none. -/
def Purpose.longestPath : Purpose → Option Nat
  | .spellOut => none
  | _ => some Route.maxLength

/-- Where a path leads. -/
inductive Target where
  /-- To an entry. -/
  | found (place : Place)
  /-- To a name that is missing in a directory. -/
  | absent (directory : Place) (name : Name)
  deriving DecidableEq, Repr

namespace FileSystem

/-- How many links are followed on one way. -/
def maxLinks : Nat := 40

/-- Whether a name can be looked at in a directory. -/
def admits (purpose : Purpose) (directory : Place) (name : Name) : Bool :=
  name.length ≤ Route.maxNameLength &&
    (purpose ≠ .spellOut || (directory ++ [name]).octets.length ≤ Route.maxLength)

/-- Follows names from a directory as far as the next link, behind which `beyond` goes on. -/
def followNames (files : FileSystem) (purpose : Purpose) (beyond : Place → List Name → Except OsError Target)
    (place : Place) : List Name → Except OsError Target
  | [] => .ok (.found place)
  | name :: rest =>
    if name = [] ∨ name = Route.here then followNames files purpose beyond place rest
    else if name = Route.up then followNames files purpose beyond place.dropLast rest
    else if purpose = .write ∧ rest = [[]] then .error .isDirectory
    else if !admits purpose place name then .error .nameTooLong
    else
      match files.at? (place ++ [name]) with
      | none => if rest = [] then .ok (.absent place name) else .error .notFound
      | some .directory => followNames files purpose beyond (place ++ [name]) rest
      | some (.file _) => if rest = [] then .ok (.found (place ++ [name])) else .error .notDirectory
      | some (.link target) =>
        if purpose = .name ∧ rest = [] then .ok (.found (place ++ [name]))
        else
          let route := Route.ofOctets target
          beyond (if route.absolute then [] else place) (route.steps ++ rest)

/-- Follows names from a directory, with so many links left. -/
def follow (files : FileSystem) (purpose : Purpose) : Nat → Place → List Name → Except OsError Target
  | 0 => followNames files purpose fun _ _ => .error .tooManyLinks
  | links + 1 => followNames files purpose (follow files purpose links)

/-- Where a path leads. -/
def locate (files : FileSystem) (purpose : Purpose) (path : String) : Except IoFailure Target := do
  let route ← Route.ofPath purpose.longestPath path
  (files.follow purpose maxLinks (if route.absolute then [] else files.current) route.steps).mapError .os

end FileSystem

end PageGraph
