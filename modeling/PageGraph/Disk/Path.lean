/-!
# Paths on disk

Paths as a user writes them: texts with `/` between their parts. They are not brought into any form, since
what `..` means is for the disk to say.
-/

namespace PageGraph.DiskPath

/-- Whether a path starts at the root. -/
def isAbsolute (path : String) : Bool := path.toList.head? = some '/'

/-- A path below another; an absolute one replaces it. -/
def join (base path : String) : String :=
  if isAbsolute path ∨ base.isEmpty then path
  else if base.toList.getLast? = some '/' then base ++ path
  else base ++ "/" ++ path

/-- The parts of a path that count: neither empty ones nor `.`, which stays only at the head of a relative path. -/
def parts (path : String) : List (List Char) :=
  let pieces := (path.toList.splitOnP (· = '/')).filter (!·.isEmpty)
  match pieces with
  | ['.'] :: rest => (if isAbsolute path then [] else [['.']]) ++ rest.filter (· ≠ ['.'])
  | pieces => pieces.filter (· ≠ ['.'])

/-- The path of some parts. -/
def ofParts (absolute : Bool) (parts : List (List Char)) : String :=
  String.ofList ((if absolute then ['/'] else []) ++ ['/'].intercalate parts)

/-- The paths of the directories above some parts, the last part first. -/
def above (absolute : Bool) : List (List Char) → List String
  | [] => []
  | _ :: rest => ofParts absolute rest.reverse :: above absolute rest

/-- A path and the paths of the directories above it, as far as the path names them, the nearest first. -/
def ancestors (path : String) : List String := path :: above (isAbsolute path) (parts path).reverse

end PageGraph.DiskPath
