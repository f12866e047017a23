import PageGraph.PagePath
import PageGraph.Timestamp

/-!
# Records of template files

A record is what is known of a template file before it is read: where it lies, how large it is, and when it
was changed and made, as far as the disk tells.
-/

namespace PageGraph

/-- A template file. -/
structure Record where
  /-- The path of the file. -/
  path : String
  /-- The directory that holds it. -/
  root : String
  /-- Its name, with the extension. -/
  name : String
  /-- Its size in octets. -/
  size : Nat := 0
  modified : Option Timestamp := none
  created : Option Timestamp := none
  deriving DecidableEq, Repr

namespace Record

/-- The record of a path, taken apart as a text: nothing is known of the file itself. -/
def ofPath (path : String) : Record where
  path := normalize path
  root := directory (normalize path)
  name := baseName (normalize path)

/-- The directory that the references of the page are relative to: its root, or the directory of its path
when the root is empty. -/
def pageRoot (record : Record) : String :=
  if record.root.isEmpty then directory (normalize record.path) else normalize record.root

end Record

end PageGraph
