import PageGraph.Disk.Basic
import PageGraph.Layout
import PageGraph.Record

/-!
# The inventory of a store tree

The records of the template files below a directory. They come in the order of the walk, which is the order of
their places: every file of the tree whose name is that of a template has one record, and nothing else has.
-/

namespace PageGraph

/-- A name as a text; what is no character in it becomes U+FFFD. -/
def Name.toText (name : Name) : String := String.ofList (Text.Utf8.decodeLossy name)

/-- The record of the file at a place. -/
def Record.ofFile (place : Place) (info : FileInfo) : Record where
  path := pageKey place.octets
  root := directory (pageKey place.octets)
  name := Name.toText (place.getLastD [])
  size := info.size
  modified := info.modified
  created := info.created

/-- The records of the template files in a tree that lies at a place. -/
def inventory (layout : Layout) (base : Place) (tree : Entry FileInfo) : List Record :=
  (tree.files.filter fun (place, _) => layout.isTemplate (Name.toText (place.getLastD []))).map
    fun (place, info) => Record.ofFile (base ++ place) info

end PageGraph
