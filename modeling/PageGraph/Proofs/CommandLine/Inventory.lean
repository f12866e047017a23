import PageGraph.Proofs.CommandLine.Effects
import PageGraph.Proofs.CommandLine.ListedPages
import PageGraph.Proofs.Disk.PageKeys
import PageGraph.Proofs.Page.Sorting

/-!
# What the data files list

A walk finds the template files below the stores directory, each once, in the order of their places. The records of
these files are what `raw` saves. A corpus has one page for each record, whatever could be read of it, and its
sorting neither drops a page nor merges two; so the other data files have one entry for each record too. Two
entries may have one path only if a name below the stores directory is not plain.

* `IsTemplateFile` : a template file below a directory;
* `Lists` : a list of the template files below a directory, in order;
* `exists_lists` : the records of a walk are those of such a list;
* `corpus_path_perm`, `nodup_corpus_path` : the pages of a walk and their paths;
* `data_files_list_templates` : what the data files of a store tree list.
-/

namespace PageGraph.FileSystem

variable {files after : FileSystem} {environment : Option String} {invocation : Invocation} {settings : Settings}
  {layout : Layout} {base place : Place} {info : FileInfo} {found : List (Place × FileInfo)} {records : List Record}

/-! ### Template files -/

/-- A template file lies below a directory. No link leads to it, since a place has none on its way, and it can be read:
its path is not too long. -/
structure IsTemplateFile (files : FileSystem) (layout : Layout) (base place : Place) (info : FileInfo) : Prop where
  file : ∃ file, files.at? (base ++ place) = some (.file file) ∧ file.info = info
  name : layout.isTemplate (Name.toText (place.getLastD [])) = true
  readable : (base ++ place).octets.length ≤ Route.maxLength

/-- A list of the template files below a directory: of all of them and nothing else, in the strict order of their
places. -/
structure Lists (files : FileSystem) (layout : Layout) (base : Place) (found : List (Place × FileInfo)) : Prop where
  increasing : (found.map Prod.fst).Pairwise (· < ·)
  exact : ∀ place info, (place, info) ∈ found ↔ files.IsTemplateFile layout base place info

/-- The records of some files below a directory. -/
def recordsOf (base : Place) (found : List (Place × FileInfo)) : List Record :=
  found.map fun (place, info) => .ofFile (base ++ place) info

/-- **A walk lists the template files** below the stores directory. -/
theorem exists_lists (h : files.WellFormed) (hdirectory : files.isDirectory settings.storesDir = true)
    (hbase : files.canonicalize settings.storesDir = .ok base) :
    ∃ found, files.Lists settings.layout base found ∧ files.records settings none = .ok (recordsOf base found) := by
  obtain ⟨place, hleads, hplace⟩ := isDirectory_iff.1 hdirectory
  obtain rfl := Target.found.inj ((canonicalize_eq_ok_iff.1 hbase).spellOut_unique hleads)
  refine ⟨_, ⟨?_, fun place info => ?_⟩, (files.records_walked_eq_ok_iff).2 ⟨base, hdirectory, hbase, rfl⟩⟩
  · exact (h.distinct_tree base).pairwise_files.sublist (List.filter_sublist.map Prod.fst)
  · rw [List.mem_filter, h.mem_files_tree_iff hplace]
    exact ⟨fun ⟨⟨hfile, hreadable⟩, hname⟩ => ⟨hfile, hname, hreadable⟩,
      fun htemplate => ⟨⟨htemplate.file, htemplate.readable⟩, htemplate.name⟩⟩

/-! ### Pages and their paths -/

/-- **A corpus has one page for each record.** -/
theorem corpus_path_perm (files : FileSystem) (settings : Settings) (base : Place) (found : List (Place × FileInfo)) :
    ((files.corpus settings (recordsOf base found)).map Page.path).Perm ((recordsOf base found).map Record.path) := by
  refine ((Page.sort_perm _).map Page.path).trans (List.Perm.of_eq ?_)
  rw [List.map_map]
  refine List.map_congr_left fun record hrecord => ?_
  obtain ⟨⟨place, info⟩, -, rfl⟩ := List.mem_map.1 hrecord
  have hpath : (Record.ofFile (base ++ place) info).path = pageKey (base ++ place).octets := rfl
  rw [Function.comp_apply, path_page, hpath, pageKey, normalize_normalize]

theorem Lists.nodup (h : files.Lists layout base found) : (found.map Prod.fst).Nodup := by
  refine h.increasing.imp fun {place other} hlt heq => ?_
  rw [heq] at hlt
  exact List.lt_irrefl other hlt

/-- **Different pages have different paths** where the names below the stores directory are plain. -/
theorem nodup_corpus_path (hfiles : files.WellFormed) (hbase : files.at? base = some .directory)
    (h : files.Lists layout base found)
    (hplain : ∀ rest node, files.at? (base ++ rest) = some node → rest.IsPlain) :
    ((files.corpus settings (recordsOf base found)).map Page.path).Nodup := by
  have hpaths : (recordsOf base found).map Record.path =
      (found.map Prod.fst).map fun place => pageKey (base ++ place).octets := by
    rw [recordsOf, List.map_map, List.map_map]
    rfl
  -- a listed place lies below the directory, and its names are proper and plain
  have hbelow : ∀ place ∈ found.map Prod.fst, place ≠ [] ∧ (∀ name ∈ place, name.IsProper) ∧ place.IsPlain := by
    intro place hplace
    obtain ⟨⟨listed, info⟩, hmem, rfl⟩ := List.mem_map.1 hplace
    obtain ⟨file, hfile, -⟩ := ((h.exact listed info).1 hmem).file
    refine ⟨?_, fun name hname => hfiles.proper_of_at? hfile name (List.mem_append_right base hname), hplain _ _ hfile⟩
    rintro rfl
    rw [List.append_nil, hbase] at hfile
    cases hfile
  rw [(files.corpus_path_perm settings base found).nodup_iff, hpaths]
  refine h.nodup.map_on fun place hplace other hother heq => ?_
  obtain ⟨hne, hproper, hplain⟩ := hbelow place hplace
  obtain ⟨hne', hproper', hplain'⟩ := hbelow other hother
  exact Place.eq_of_pageKey_append_eq hproper hplain hne hproper' hplain' hne' heq

theorem map_path_trees (corpus : Corpus) : corpus.trees.map (fun tree => tree.occurrence.path) = corpus.map Page.path := by
  rw [Corpus.trees, List.map_map]
  rfl

/-! ### Data files -/

/-- What a file of the output directory holds. -/
def HoldsText (after : FileSystem) (directory name text : String) : Prop :=
  after.read (DiskPath.join directory name) = .ok (Text.Utf8.encode text.toList)

/-- Two names of the output directory stand for one file, as one may be a link to the other. -/
def SameFile (after : FileSystem) (directory name other : String) : Prop :=
  ∃ place, after.LeadsTo .look (DiskPath.join directory name) (.found place) ∧
    after.LeadsTo .look (DiskPath.join directory other) (.found place)

/-- The first of two files that have been written holds its own text, unless both names stand for one file. -/
theorem holdsText_or_sameFile {directory name text other text' : String}
    (h : IsWritten after directory [(name, text), (other, text')] name) :
    HoldsText after directory name text ∨ SameFile after directory name other := by
  obtain ⟨place, hleads, item, hitem, hitemLeads, hfile⟩ := h
  rcases List.mem_cons.1 hitem with rfl | hitem
  · exact .inl (read_eq_ok_iff.2 ⟨place, _, hitemLeads, hfile, rfl⟩)
  · obtain rfl := List.mem_singleton.1 hitem
    exact .inr ⟨place, hleads, hitemLeads⟩

/-- **What the data files of a store tree list.** The records are those of the template files below the stores directory, in
the strict order of their places. The pages and the trees have the paths of the records, and no two of
them have one path if the names below the stores directory are plain. -/
theorem data_files_list_templates (h : files.WellFormed)
    (hsettings : files.settings invocation.configuration environment = .ok settings)
    (hdirectory : files.isDirectory (settings.under invocation).storesDir = true)
    (hbase : files.canonicalize (settings.under invocation).storesDir = .ok base) :
    ∃ (found : List (Place × FileInfo)) (corpus : Corpus), files.Lists settings.layout base found ∧
      (∀ coloured words, CommandLine.parse words = .ok { invocation with command := .raw } →
        files.run coloured environment words = (writer.carryOut (.ofRecords coloured invocation.quiet
          (settings.under invocation).outputDir (recordsOf base found))).run files ∧
        ∀ printed after, files.run coloured environment words = (.finished printed, after) →
          HoldsText after (settings.under invocation).outputDir Plan.recordsFile
            (Record.fileText (recordsOf base found))) ∧
      (∀ coloured words summary, CommandLine.parse words = .ok { invocation with command := .deep none summary } →
        files.run coloured environment words = (writer.carryOut (.ofTrees coloured invocation.quiet summary
          (settings.under invocation).outputDir corpus)).run files ∧
        ∀ printed after, files.run coloured environment words = (.finished printed, after) →
          HoldsText after (settings.under invocation).outputDir Plan.treesFile (Tree.fileText corpus.trees) ∧
          (HoldsText after (settings.under invocation).outputDir Plan.pagesFile (Page.fileText corpus) ∨
            SameFile after (settings.under invocation).outputDir Plan.pagesFile Plan.treesFile)) ∧
      (corpus.map Page.path).Perm ((recordsOf base found).map Record.path) ∧
      corpus.trees.map (fun tree => tree.occurrence.path) = corpus.map Page.path ∧
      ((∀ rest node, files.at? (base ++ rest) = some node → rest.IsPlain) → (corpus.map Page.path).Nodup) := by
  obtain ⟨found, hlists, hrecords⟩ := exists_lists h hdirectory hbase
  obtain ⟨place, hleads, hplace⟩ := isDirectory_iff.1 hdirectory
  obtain rfl := Target.found.inj ((canonicalize_eq_ok_iff.1 hbase).spellOut_unique hleads)
  refine ⟨found, files.corpus (settings.under invocation) (recordsOf base found), hlists, fun coloured words hparse => ?_,
    fun coloured words summary hparse => ?_, corpus_path_perm files _ base found, map_path_trees _,
    nodup_corpus_path h hplace hlists⟩
  · have hrun := run_raw coloured invocation hparse hsettings hrecords
    refine ⟨hrun, fun printed after hfinished => ?_⟩
    rw [hrun] at hfinished
    have hread := read_of_carryOut h.grounded (List.nil_append _).symm (congrArg Prod.fst hfinished)
    rwa [hfinished] at hread
  · have hrun := run_deep coloured invocation hparse hsettings hrecords
    refine ⟨hrun, fun printed after hfinished => ?_⟩
    rw [hrun] at hfinished
    have hread := read_of_carryOut h.grounded List.singleton_append.symm (congrArg Prod.fst hfinished)
    rw [hfinished] at hread
    have hwritten := isWritten_of_carryOut h.grounded hfinished (Plan.pagesFile, _) List.mem_cons_self
    exact ⟨hread, holdsText_or_sameFile hwritten⟩

/-- The shop, which is walked through a link. -/
theorem data_files_list_templates_shop :
    (shop.WellFormed ∧ shop.settings none none = .ok {} ∧
      shop.isDirectory (Settings.under {} shopInvocation).storesDir = true ∧
      shop.canonicalize (Settings.under {} shopInvocation).storesDir = .ok [Name.ofText "shop"]) ∧
    ∃ (found : List (Place × FileInfo)) (corpus : Corpus), shop.Lists {} [Name.ofText "shop"] found ∧
      (corpus.map Page.path).Perm ((recordsOf [Name.ofText "shop"] found).map Record.path) ∧
      (corpus.map Page.path).Nodup := by
  have hchecked : shop.root.every holdsPlainNames = true := by decide +kernel
  have hplain := hasPlainNames_of_check hchecked (Settings.under {} shopInvocation).storesDir
  obtain ⟨found, corpus, hlists, -, -, hperm, -, hnodup⟩ := data_files_list_templates survey_shop.wellFormed settings_shop
    survey_shop.directory survey_shop.canonical
  refine ⟨⟨survey_shop.wellFormed, settings_shop, survey_shop.directory, survey_shop.canonical⟩, found, corpus, hlists,
    hperm, hnodup fun rest node hnode name hname => ?_⟩
  exact hplain _ rest node survey_shop.canonical hnode name (List.mem_append_right _ hname)

end PageGraph.FileSystem
