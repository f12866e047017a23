import PageGraph.Text.Utf8

/-!
# Page paths

A page is known by one text, its path, and paths are compared as texts over the whole corpus. So every path
that names a page is brought into one form first: `/` between segments, no empty and no `.` segment, `..`
folded into the segment before it. Nothing here looks at a disk.

A path taken apart (`PagePath`) says whether it starts at the root and lists its segments. `..` never climbs
above the root of an absolute path nor above a leading drive (`C:`), and stays in front of a relative path.

* `normalize` brings a path into its form;
* `join` places a path below another;
* `directory` and `baseName` split a path at its last `/`;
* `pageKey` is the form of a path that the file system gives, as octets.
-/

namespace PageGraph

/-- A segment of a path: the characters between two separators. -/
abbrev Segment := List Char

/-- A path taken apart at its separators. -/
structure PagePath where
  absolute : Bool
  segments : List Segment
  deriving DecidableEq, Repr

namespace PagePath

/-- Both slashes separate segments. -/
def isSeparator (c : Char) : Bool := c = '/' || c = '\\'

/-- The segment `.`, the directory itself. -/
def here : Segment := ['.']

/-- The segment `..`, the directory above. -/
def up : Segment := ['.', '.']

/-- A drive: an ASCII letter and a colon. -/
def isDrive : Segment → Bool
  | [letter, ':'] => letter.isAlpha
  | _ => false

/-- Puts a segment on a stack of segments, innermost first. -/
def push (absolute : Bool) (stack : List Segment) (segment : Segment) : List Segment :=
  if segment = [] ∨ segment = here then stack
  else if segment = up then
    match stack with
    | [] => if absolute then [] else [up]
    | last :: below =>
      if last = up then (if absolute then stack else up :: stack)
      else if below = [] ∧ isDrive last then stack
      else below
  else segment :: stack

/-- The segments of a text, from separator to separator. -/
def pieces (text : List Char) : List Segment := text.splitOnP isSeparator

/-- Whether a text starts at the root. -/
def isRooted (text : List Char) : Bool := text.head?.any isSeparator

/-- A text as a path in normal form. -/
def ofText (text : List Char) : PagePath where
  absolute := isRooted text
  segments := ((pieces text).foldl (push (isRooted text)) []).reverse

/-- The text of a path; the relative path without segments is `.`. -/
def toText (path : PagePath) : List Char :=
  if path.absolute then '/' :: ['/'].intercalate path.segments
  else if path.segments = [] then here
  else ['/'].intercalate path.segments

end PagePath

open PagePath

/-- The normal form of a path. -/
def normalize (path : String) : String := String.ofList (ofText path.toList).toText

/-- `relative` below `base`, in normal form; separators in front of `relative` do not count. -/
def join (base relative : String) : String :=
  let rest := relative.toList.dropWhile isSeparator
  if base.isEmpty then normalize (String.ofList rest)
  else normalize (String.ofList (base.toList ++ '/' :: rest))

/-- The part of a path after its last `/`. -/
def baseName (path : String) : String :=
  String.ofList (path.toList.reverse.takeWhile (· ≠ '/')).reverse

/-- The part of a path before its last `/`: `/` for a file at the root, `.` where there is no `/`. -/
def directory (path : String) : String :=
  match path.toList.reverse.dropWhile (· ≠ '/') with
  | [] => "."
  | [_] => "/"
  | _ :: before => String.ofList before.reverse

/-- What marks an extended-length path. -/
def extendedMark : List Char := "\\\\?\\".toList

/-- What marks an extended-length path on a network share. -/
def extendedShareMark : List Char := "\\\\?\\UNC\\".toList

/-- A path without its extended-length mark. -/
def withoutExtendedMark (text : List Char) : List Char :=
  if extendedShareMark.isPrefixOf text then '/' :: '/' :: text.drop extendedShareMark.length
  else if extendedMark.isPrefixOf text then text.drop extendedMark.length
  else text

/-- The page path of a path on disk, given by its octets. -/
def pageKey (octets : List UInt8) : String :=
  normalize (String.ofList (withoutExtendedMark (Text.Utf8.decodeLossy octets)))

end PageGraph
