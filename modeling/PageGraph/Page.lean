import PageGraph.Record
import PageGraph.Reference.Extraction
import PageGraph.Text.LowerCase

/-!
# Pages and the corpus

A page is a template file with the pages it references directly. The pages of one scan make up a corpus, in
the order of their paths: by the lower-case form, and by the path itself where that is the same. Pages that
share a path keep their order, and the first of them is the one that the path names (`lookup`).
-/

namespace PageGraph

/-- A page with its direct references. -/
structure Page where
  name : String
  /-- The key of the page. -/
  path : String
  parent : Option String := none
  depth : Nat := 0
  /-- The paths of the pages that it references, in text order, repetitions kept. -/
  references : List String := []
  deriving DecidableEq, Repr

namespace Page

/-- The page of a record, with the references that were found. -/
def ofRecord (record : Record) (references : List String) : Page where
  name := record.name
  path := normalize record.path
  references := references

/-- The page of a record whose text is known. -/
def build (resolver : Resolver) (record : Record) (text : String) : Page :=
  ofRecord record (resolver.extract record.pageRoot text)

/-- The order of paths: by the lower-case form, then by the path, code point by code point. -/
def comparePaths (a b : String) : Ordering :=
  (compare (Text.lower a.toList) (Text.lower b.toList)).then (compare a.toList b.toList)

/-- Pages in the order of their paths. -/
def sort (pages : List Page) : List Page := pages.mergeSort fun a b => (comparePaths a.path b.path).isLE

end Page

/-- The pages of a scan. -/
abbrev Corpus := List Page

namespace Corpus

/-- The first page with a path. -/
def lookup (corpus : Corpus) (path : String) : Option Page := corpus.find? fun page => page.path = path

theorem lookup_eq_some {corpus : Corpus} {path : String} {page : Page} (h : corpus.lookup path = some page) :
    page ∈ corpus ∧ page.path = path :=
  ⟨List.mem_of_find?_eq_some h, by simpa using List.find?_some h⟩

end Corpus

end PageGraph
