import PageGraph.Proofs.CommandLine.Runs
import PageGraph.Proofs.CommandLine.Words
import PageGraph.Proofs.CommandLine.Writing
import PageGraph.Proofs.FileSystem.Templates
import PageGraph.Proofs.Page.Inclusion

/-!
# Showing a listed page

Each page that a run lists can be shown by its path, and what is shown is the tree that the run has written. A name
that is asked for may stand for several page paths, and the first of them is that of the place to which the name
leads. Where all names are plain the path of a page leads to the file of the page, so this first path is the path
itself, and no other page can come before it; and since places with plain names have different paths, no other page
has this path.

* `LiesAt` : a page of a walk with the place of its file;
* `LiesAt.canonicalize` : its path leads to this place;
* `LiesAt.eq_of_path_eq` : no other page has its path;
* `tree_of_listed_page` : the tree that is shown is the one that was written.
-/

namespace PageGraph.FileSystem

variable {files : FileSystem} {environment : Option String} {invocation : Invocation} {settings : Settings}
  {records : List Record} {resolver : Resolver} {page other : Page} {place : Place}

/-! ### Pages and places -/

/-- The names of the place to which a path leads are plain, and so are those of all that lies below it. -/
def HasPlainNames (files : FileSystem) (path : String) : Prop :=
  ∀ base rest node, files.canonicalize path = .ok base → files.at? (base ++ rest) = some node → (base ++ rest).IsPlain

/-- Whether the names in a directory are plain. -/
def holdsPlainNames : Entry File → Bool
  | .directory entries => ∀ name ∈ entries.map Prod.fst, name.IsPlain
  | _ => true

/-- All names below a path are plain if all names are. -/
theorem hasPlainNames_of_check (h : files.root.every holdsPlainNames = true) (path : String) :
    files.HasPlainNames path := by
  intro base rest node _ hnode name hname
  obtain ⟨upper, entries, hentries, hmem⟩ := exists_entries_of_at? hnode hname
  exact of_decide_eq_true (Entry.check_of_get? h hentries) name hmem

/-- A page is that of the file at a place with plain names, which a path can reach. -/
structure LiesAt (files : FileSystem) (resolver : Resolver) (page : Page) (place : Place) : Prop where
  file : ∃ file, files.at? place = some (.file file) ∧ page = files.page resolver (.ofFile place file.info)
  plain : place.IsPlain
  nonempty : place ≠ []
  short : place.octets.length ≤ Route.maxLength

/-- Each page of a walk lies at a place. -/
theorem exists_liesAt (hfiles : files.WellFormed) (hplain : files.HasPlainNames settings.storesDir)
    (hrecords : files.records settings none = .ok records) (hpage : page ∈ files.corpus settings records) :
    ∃ place, LiesAt files (Resolver.below (files.contentRoot settings) settings.layout) page place := by
  obtain ⟨record, hrecord, rfl⟩ := (files.mem_corpus_iff).1 hpage
  obtain ⟨place, -, file, hfile, rfl, hne, hshort, base, rest, hbase, rfl⟩ :=
    hfiles.exists_template_of_mem_records hrecords hrecord
  exact ⟨base ++ rest, ⟨file, hfile, rfl⟩, hplain base rest _ hbase hfile, hne, hshort⟩

namespace LiesAt

theorem proper (h : LiesAt files resolver page place) (hfiles : files.WellFormed) : ∀ name ∈ place, name.IsProper := by
  obtain ⟨file, hfile, -⟩ := h.file
  exact hfiles.proper_of_at? hfile

/-- The path of a page spells its place out. -/
theorem path (h : LiesAt files resolver page place) (hfiles : files.WellFormed) : page.path = pageKey place.octets := by
  obtain ⟨file, -, hpage⟩ := h.file
  have hrecord : (Record.ofFile place file.info).path = pageKey place.octets := rfl
  rw [hpage, path_page, hrecord, Place.normalize_pageKey (h.proper hfiles) h.plain h.nonempty]

theorem absolute (h : LiesAt files resolver page place) (hfiles : files.WellFormed) :
    page.path.toList.head? = some '/' := by
  rw [h.path hfiles, Place.pageKey_octets (h.proper hfiles) h.plain h.nonempty, String.toList_ofList]
  obtain ⟨name, rest, rfl⟩ := List.exists_cons_of_ne_nil h.nonempty
  rfl

/-- **The path of a page leads to its file.** -/
theorem canonicalize (h : LiesAt files resolver page place) (hfiles : files.WellFormed) :
    files.canonicalize page.path = .ok place := by
  obtain ⟨file, hfile, -⟩ := h.file
  rw [canonicalize_eq_ok_iff, h.path hfiles]
  exact hfiles.leadsTo_pageKey hfile (fun _ => Node.noConfusion) h.plain h.nonempty h.short

/-- **No other page has its path.** -/
theorem eq_of_path_eq {place' : Place} (h : LiesAt files resolver page place) (h' : LiesAt files resolver other place')
    (hfiles : files.WellFormed) (hpath : page.path = other.path) : page = other := by
  rw [h.path hfiles, h'.path hfiles] at hpath
  obtain rfl := Place.eq_of_pageKey_eq (h.proper hfiles) h.plain h.nonempty (h'.proper hfiles) h'.plain h'.nonempty hpath
  obtain ⟨file, hfile, hpage⟩ := h.file
  obtain ⟨file', hfile', hother⟩ := h'.file
  obtain rfl := Node.file.inj (Option.some.inj (hfile.symm.trans hfile'))
  rw [hpage, hother]

end LiesAt

/-! ### Showing a page -/

/-- The path of a page of a walk is the first page path that it may stand for, and names this page. -/
theorem firstTree?_path (hfiles : files.WellFormed) (hplain : files.HasPlainNames settings.storesDir)
    (hrecords : files.records settings none = .ok records) (hpage : page ∈ files.corpus settings records) :
    (files.corpus settings records).firstTree? (files.pagePaths settings page.path) =
      some ((files.corpus settings records).tree page) := by
  obtain ⟨place, hplace⟩ := exists_liesAt hfiles hplain hrecords hpage
  obtain ⟨rest, hpaths⟩ := files.exists_pagePaths_of_canonicalize settings (hplace.canonicalize hfiles)
  obtain ⟨other, hlookup⟩ := Corpus.mem_paths_iff_exists_lookup.1 (Corpus.mem_paths_of_mem hpage)
  obtain ⟨hother, hpath⟩ := Corpus.lookup_eq_some hlookup
  obtain ⟨place', hplace'⟩ := exists_liesAt hfiles hplain hrecords hother
  obtain rfl := hplace'.eq_of_path_eq hplace hfiles hpath
  rw [hpaths, ← hplace.path hfiles, Corpus.firstTree?, List.findSome?_cons, Corpus.tree?, hlookup]
  rfl

/-- A run that is asked for a path prints a tree: its JSON text, or its drawing, in colours or without. The path is
absolute, so no word is taken for it that is an option. -/
structure Shows (files : FileSystem) (environment : Option String) (invocation : Invocation) (path : String)
    (tree : Tree) : Prop where
  absolute : path.toList.head? = some '/'
  json : ∀ coloured words, CommandLine.parse words = .ok { invocation with command := .tree path none "json" none } →
    files.run coloured environment words = (.finished (tree.toJson.pretty ++ "\n"), files)
  drawing : ∀ coloured words, CommandLine.parse words = .ok { invocation with command := .tree path none "tree" none } →
    files.run coloured environment words = (.finished (tree.draw none coloured), files)

open CommandLine in
/-- With options that stand before the command, as in another command line, the words that ask for a tree are these. -/
theorem Shows.run {path : String} {tree : Tree} {options : List String} {upper : Reading}
    (h : Shows files environment invocation path tree) (hoptions : ({} : Reading).words none options = .ok (upper, none))
    (htakes : upper.takesCommand none = true)
    (hdeep : parse (options ++ ["deep"]) = .ok { invocation with command := .deep none false }) (coloured : Bool) :
    files.run coloured environment (options ++ ["tree", path, "--format", "json"]) =
        (.finished (tree.toJson.pretty ++ "\n"), files) ∧
      files.run coloured environment (options ++ ["tree", path]) = (.finished (tree.draw none coloured), files) := by
  obtain ⟨hdrawing, hjson⟩ := parse_tree hoptions htakes hdeep h.absolute
  exact ⟨h.json coloured _ hjson, h.drawing coloured _ hdrawing⟩

/-- **Each listed page is shown as it was written.** In a file system where the names of the stores directory and
of all that lies below it are plain, let a run write the pages and trees of a walk. The path of each page stands
for one of these trees, and a run that is asked for this path prints that tree. -/
theorem tree_of_listed_page (coloured : Bool) {summary : Bool} {deepWords : List String} (hfiles : files.WellFormed)
    (hsettings : files.settings invocation.configuration environment = .ok settings)
    (hplain : files.HasPlainNames (settings.under invocation).storesDir)
    (hrecords : files.records (settings.under invocation) none = .ok records)
    (hparse : CommandLine.parse deepWords = .ok { invocation with command := .deep none summary }) :
    let corpus := files.corpus (settings.under invocation) records
    files.run coloured environment deepWords =
      (writer.carryOut (.ofTrees coloured invocation.quiet summary (settings.under invocation).outputDir corpus)).run files ∧
    (∀ printed after, files.run coloured environment deepWords = (.finished printed, after) →
      after.read (DiskPath.join (settings.under invocation).outputDir Plan.treesFile) =
        .ok (Text.Utf8.encode (Tree.fileText corpus.trees).toList)) ∧
    ∀ page ∈ corpus, ∃ tree ∈ corpus.trees, tree.occurrence.path = page.path ∧
      (∀ other ∈ corpus.trees, other.occurrence.path = page.path → other = tree) ∧
      Shows files environment invocation page.path tree := by
  intro corpus
  have hrun := run_deep coloured invocation hparse hsettings hrecords
  refine ⟨hrun, fun printed after hfinished => ?_, fun page hpage => ?_⟩
  · rw [hrun] at hfinished
    have hread := read_of_carryOut hfiles.grounded (List.singleton_append).symm (congrArg Prod.fst hfinished)
    rw [hfinished] at hread
    exact hread
  have htree := firstTree?_path hfiles hplain hrecords hpage
  obtain ⟨place, hplace⟩ := exists_liesAt hfiles hplain hrecords hpage
  refine ⟨corpus.tree page, List.mem_map_of_mem hpage, rfl, ?_, hplace.absolute hfiles, ?_, ?_⟩
  · intro tree hmem hpath
    obtain ⟨other, hother, rfl⟩ := List.mem_map.1 hmem
    obtain ⟨place', hplace'⟩ := exists_liesAt hfiles hplain hrecords hother
    rw [hplace'.eq_of_path_eq hplace hfiles hpath]
  · intro coloured words hwords
    have hformat : treeFormat "json" none = .ok .json := rfl
    have hrun := run_tree coloured invocation hwords hsettings hrecords hformat htree
    exact hrun
  · intro coloured words hwords
    have hformat : treeFormat "tree" none = .ok .drawing := rfl
    have hrun := run_tree coloured invocation hwords hsettings hrecords hformat htree
    exact hrun

/-- The page of the shop that is included. -/
def footPage : Page := { name := "foot.jsp", path := "/shop/WebContent/foot.jsp" }

/-- The page of the shop that includes another. -/
def headPage : Page :=
  { name := "head.jsp", path := "/shop/WebContent/head.jsp", references := ["/shop/WebContent/foot.jsp"] }

/-- The tree of the page that includes another. -/
def headTree : Tree :=
  .node { name := "head.jsp", path := headPage.path, depth := 0 }
    [.node { name := "foot.jsp", path := footPage.path, parent := some headPage.path, depth := 1 } []]

theorem tree_headPage : Corpus.tree [footPage, headPage] headPage = headTree := by
  rw [Corpus.tree, Corpus.expandFrom_eq]
  simp [headTree, headPage, footPage, Corpus.child, Corpus.occurrence, Corpus.lookup, Corpus.expandFrom_eq]

/-- A page of the shop is shown with the page that it includes, in colours too. -/
theorem tree_of_listed_page_shop :
    shop.run false none ["--stores-dir", "stores", "-o", "out", "tree", headPage.path, "--format", "json"] =
        (.finished (headTree.toJson.pretty ++ "\n"), shop) ∧
      shop.run false none ["--stores-dir", "stores", "-o", "out", "tree", headPage.path] =
        (.finished "/shop/WebContent/head.jsp\n└── /shop/WebContent/foot.jsp\n", shop) ∧
      shop.run true none ["--stores-dir", "stores", "-o", "out", "tree", headPage.path] =
        (.finished "\x1b[1;36m/shop/WebContent/head.jsp\x1b[0m\n└── /shop/WebContent/foot.jsp\n", shop) := by
  have hplain : shop.root.every holdsPlainNames = true := by decide +kernel
  have hparse : CommandLine.parse (["--stores-dir", "stores", "-o", "out"] ++ ["deep"]) =
      .ok { shopInvocation with command := .deep none false } := by decide +kernel
  have hoptions : ({} : CommandLine.Reading).words none ["--stores-dir", "stores", "-o", "out"] =
      .ok ({ given := [(.storesDir, .text "stores")], pending := some (.outputDir, some "out") }, none) := by decide +kernel
  have hpages : shopRecords.map (shop.page (Resolver.below (shop.contentRoot (Settings.under {} shopInvocation))
      (Settings.under {} shopInvocation).layout)) = [footPage, headPage] := by decide +kernel
  have hsorted : [footPage, headPage].Pairwise fun a b => (Page.comparePaths a.path b.path).isLE := by decide +kernel
  have hcorpus : shop.corpus (Settings.under {} shopInvocation) shopRecords = [footPage, headPage] := by
    rw [corpus, hpages, Page.sort, List.mergeSort_of_pairwise hsorted]
  obtain ⟨-, -, hlisted⟩ := tree_of_listed_page false survey_shop.wellFormed settings_shop
    (hasPlainNames_of_check hplain _) records_shop hparse
  rw [hcorpus] at hlisted
  obtain ⟨tree, -, -, hunique, hshows⟩ := hlisted headPage (by simp)
  -- the tree is the only one with this path
  obtain rfl : headTree = tree := hunique headTree (List.mem_map.2 ⟨headPage, by simp, tree_headPage⟩) rfl
  have hdrawn : headTree.draw none false = "/shop/WebContent/head.jsp\n└── /shop/WebContent/foot.jsp\n" ∧
      headTree.draw none true = "\x1b[1;36m/shop/WebContent/head.jsp\x1b[0m\n└── /shop/WebContent/foot.jsp\n" := by
    decide +kernel
  have hplainRun := hshows.run hoptions rfl hparse false
  have hcolouredRun := hshows.run hoptions rfl hparse true
  rw [hdrawn.1] at hplainRun
  rw [hdrawn.2] at hcolouredRun
  exact ⟨hplainRun.1, hplainRun.2, hcolouredRun.2⟩

end PageGraph.FileSystem
