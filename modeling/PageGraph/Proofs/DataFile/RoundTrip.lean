import Mathlib
import PageGraph.Proofs.DataFile.Trees
import PageGraph.Proofs.FileSystem.Scanning

/-!
# Data files round-trip

What is read from a data file, written anew and read again is the same: the records, the pages and the trees keep nothing
of the text that they came from. The one thing that can go wrong is that trees nest too deep to be read. They are
refused then, and no others come out.

* `Page.ofFileText?_fileText_of_ofRecord` : pages that were built from records are read back;
* `data_files_round_trip` : what comes of every data file that is written.
-/

namespace PageGraph

/-- A page that is built from a record states the depth 0, so it is read back. -/
theorem Page.ofFileText?_fileText_of_ofRecord {pages : List Page}
    (h : ∀ page ∈ pages, ∃ record references, page = .ofRecord record references) :
    ofFileText? (fileText pages) = some pages := by
  refine ofFileText?_fileText fun page hpage => ?_
  obtain ⟨record, references, rfl⟩ := h page hpage
  change 0 < UInt64.size
  decide

theorem FileSystem.exists_ofRecord_of_mem_corpus {files : FileSystem} {settings : Settings} {records : List Record}
    {page : Page} (h : page ∈ files.corpus settings records) :
    ∃ record references, page = .ofRecord record references := by
  obtain ⟨record, -, rfl⟩ := files.mem_corpus_iff.1 h
  exact ⟨record, _, files.page_eq _ record⟩

/-- **Data files round-trip.** Records and pages that were read from a text are read back, exactly as they are, from
what is written of them, and so writing them once more gives the same text; pages that were built from records are read
back too. Of trees, be they read or those of a corpus, either the same trees come back or none do, and none do exactly
if what was written has more than 127 arrays and objects open at once. -/
theorem data_files_round_trip :
    (∀ text records, Record.ofFileText? text = some records →
      Record.ofFileText? (Record.fileText records) = some records) ∧
    (∀ text pages, Page.ofFileText? text = some pages → Page.ofFileText? (Page.fileText pages) = some pages) ∧
    (∀ text trees, Tree.ofFileText? text = some trees →
      Tree.ofFileText? (Tree.fileText trees) =
        if (Json.array (trees.map Tree.toJson)).nesting ≤ Json.maxOpen then some trees else none) ∧
    (∀ pages : List Page, (∀ page ∈ pages, ∃ record references, page = .ofRecord record references) →
      Page.ofFileText? (Page.fileText pages) = some pages) ∧
    (∀ (files : FileSystem) (settings : Settings) (records : List Record),
      Page.ofFileText? (Page.fileText (files.corpus settings records)) = some (files.corpus settings records)) ∧
    ∀ corpus : Corpus, Tree.ofFileText? (Tree.fileText corpus.trees) =
      if (Json.array (corpus.trees.map Tree.toJson)).nesting ≤ Json.maxOpen then some corpus.trees else none := by
  refine ⟨?_, ?_, ?_, ?_, ?_, ?_⟩
  · intro text records h
    exact Record.ofFileText?_fileText (Record.fits_of_ofFileText?_eq_some h)
  · intro text pages h
    exact Page.ofFileText?_fileText (Page.fits_of_ofFileText?_eq_some h)
  · intro text trees h
    exact Tree.ofFileText?_fileText_eq_ite fun _ => Tree.fits_of_ofFileText?_eq_some h
  · intro pages h
    exact Page.ofFileText?_fileText_of_ofRecord h
  · intro files settings records
    exact Page.ofFileText?_fileText_of_ofRecord fun page => FileSystem.exists_ofRecord_of_mem_corpus
  · intro corpus
    exact Tree.ofFileText?_fileText_eq_ite Corpus.fits_of_nesting_le

/-- A text of two records: one with an unknown key, an escape, an offset and a null, one as an array. -/
def recordsText : String :=
  "[\x7b\"tags\": [1, \x7b\x7d], \"name\": \"\\u00e9.jsp\", \"root\": \"\\/s\", \"path\": \"/s/\\u00e9.jsp\"," ++
    " \"created\": null, \"modified\": \"2024-01-01T00:30:00.120+01:00\"\x7d, [\"/b\", \"/\", \"b\", 7]]"

/-- The records of that text. -/
def recordsOfText : List Record :=
  [{ path := "/s/é.jsp", root := "/s", name := "é.jsp", modified := Timestamp.ofText? "2023-12-31T23:30:00.12Z".toList },
    { path := "/b", root := "/", name := "b", size := 7 }]

/-- A text of two pages, the references of one of them left out. -/
def pagesText : String :=
  "[\x7b\"path\": \"/a\", \"name\": \"a\", \"parent\": \"\\\"\", \"depth\": 18446744073709551615\x7d," ++
    " \x7b\"nested\": [\"/a\"], \"name\": \"b\", \"path\": \"/b\"\x7d]"

/-- The pages of that text. -/
def pagesOfText : List Page :=
  [{ name := "a", path := "/a", parent := some "\"", depth := 18446744073709551615 },
    { name := "b", path := "/b", references := ["/a"] }]

/-- A text of a tree, what is below it left out. -/
def treesText : String :=
  "[\x7b\"depth\": 3, \"circular\": \x7b\"lastIncludedBy\": [\"/b\", 2], \"firstIncludedDepth\": 1\x7d," ++
    " \"name\": \"a\", \"path\": \"/a\", \"parent\": null\x7d]"

/-- The tree of that text. -/
def treesOfText : List Tree :=
  [.node { name := "a", path := "/a", depth := 3,
           circular := some { firstIncludedDepth := 1, lastIncludedBy := { path := "/b", depth := 2 } } } []]

/-- The three texts are read, and what is written of them is read back. -/
theorem data_files_round_trip_examples :
    (Record.ofFileText? recordsText = some recordsOfText ∧
      Record.ofFileText? (Record.fileText recordsOfText) = some recordsOfText) ∧
    (Page.ofFileText? pagesText = some pagesOfText ∧
      Page.ofFileText? (Page.fileText pagesOfText) = some pagesOfText) ∧
    (Tree.ofFileText? treesText = some treesOfText ∧
      Tree.ofFileText? (Tree.fileText treesOfText) = some treesOfText) := by
  have hrecords : Record.ofFileText? recordsText = some recordsOfText := by decide +kernel
  have hpages : Page.ofFileText? pagesText = some pagesOfText := by decide +kernel
  have htrees : Tree.ofFileText? treesText = some treesOfText := by cbv
  have hnesting : (Json.array (treesOfText.map Tree.toJson)).nesting ≤ Json.maxOpen := by decide +kernel
  have hread := data_files_round_trip.2.2.1 treesText treesOfText htrees
  rw [if_pos hnesting] at hread
  exact ⟨⟨hrecords, data_files_round_trip.1 _ _ hrecords⟩, ⟨hpages, data_files_round_trip.2.1 _ _ hpages⟩,
    htrees, hread⟩

end PageGraph
