import PageGraph.Proofs.CommandLine.Runs
import PageGraph.Proofs.CommandLine.Writing
import PageGraph.Proofs.FileSystem.Templates

/-!
# Starting from saved records

The records of a walk can be saved and a later run can start from them. It finds the same pages as a run that walks,
since it reads the same records and, through them, the same files: making the output directory and writing a file
into it moves nothing that a path led to. So both runs have one plan, and carry it out on file systems that differ in
the saved file only.

This needs that what is read has not changed, which is more than that the saved file is another one. The path of the
configuration file may lead nowhere until the output directory is there, as `out/../conf.toml` does. And a page is read
through the path of its record. If the place of a template file has plain names that is the file itself; otherwise the
path may lead to another place, even to the saved file, which need not be a template file (`misnamed`).

* `Recorded` : the records of a walk have been saved;
* `Recorded.corpus_eq` : the pages are those that they were;
* `run_from_saved_records` : both runs have the same effect.
-/

namespace PageGraph

/-- What a run prints on the standard output. -/
def Outcome.stdout : Outcome → String
  | .finished printed => printed
  | .failed _ => ""
  | .refused usage => if usage.exitCode = 0 then usage.message else ""

namespace FileSystem

variable {files before after prepared : FileSystem} {coloured : Bool} {environment : Option String}
  {invocation : Invocation} {settings : Settings} {records : List Record} {plan : Plan} {words : List String}

/-! ### The same plan on two file systems -/

/-- Two runs that cannot be told apart by their exit codes, by what they print, and by some files of a
directory. -/
structure SameRun (done other : Outcome × FileSystem) (directory : String) (names : List String) : Prop where
  exitCode : done.1.exitCode = other.1.exitCode
  stdout : done.1.stdout = other.1.stdout
  files : SameFiles done.2 other.2 directory names

/-- The same plan has the same effect on twins. -/
theorem carryOut_twins (h : Twins before after plan.directory) :
    SameRun ((writer.carryOut plan).run before) ((writer.carryOut plan).run after) plan.directory
      (plan.files.map Prod.fst) := by
  have htwins := writeAll_twins h plan.files
  rw [run_carryOut, run_carryOut]
  generalize Attempt.runOn (writer.writeAll plan.directory plan.files) before = done at htwins ⊢
  generalize Attempt.runOn (writer.writeAll plan.directory plan.files) after = other at htwins ⊢
  obtain ⟨result, files⟩ := done
  obtain ⟨result', files'⟩ := other
  obtain ⟨hok, hfiles, -⟩ := htwins
  -- both are written, or neither
  cases result with
  | ok value =>
    cases result' with
    | ok value' => exact ⟨rfl, rfl, hfiles⟩
    | error problem' => cases hok
  | error problem =>
    cases result' with
    | ok value' => cases hok
    | error problem' => exact ⟨rfl, rfl, hfiles⟩

/-- Whether the directory of a plan is there already makes no difference. -/
theorem carryOut_of_made (h : (writer.makeDirectories plan.directory).run files = (.ok (), prepared))
    (hprepared : prepared.Prepared plan.directory) (hfiles : plan.files ≠ []) :
    (writer.carryOut plan).run files = (writer.carryOut plan).run prepared := by
  obtain ⟨item, rest, heq⟩ := List.exists_cons_of_ne_nil hfiles
  rw [run_carryOut, run_carryOut, heq, runOn_writeAll_of_made h hprepared]

/-! ### Saved records -/

/-- The path of the saved records. -/
def savedPath (settings : Settings) : String := DiskPath.join settings.outputDir Plan.recordsFile

/-- The records of a walk have been saved in the output directory, which was made first. -/
structure Recorded (files prepared after : FileSystem) (settings : Settings) (records : List Record) : Prop where
  wellFormed : files.WellFormed
  walked : files.records settings none = .ok records
  made : (writer.makeDirectories settings.outputDir).run files = (.ok (), prepared)
  written : prepared.write (savedPath settings) (Text.Utf8.encode (Record.fileText records).toList) = .ok after

/-- A run that saves records has done so. -/
theorem exists_recorded (invocation : Invocation) {printed : String} (hfiles : files.WellFormed)
    (hsettings : files.settings invocation.configuration environment = .ok settings)
    (hparse : CommandLine.parse words = .ok { invocation with command := .raw })
    (hrun : files.run coloured environment words = (.finished printed, after)) :
    ∃ records prepared, Recorded files prepared after (settings.under invocation) records := by
  obtain ⟨plan, hplan, hcarried⟩ := exists_plan_of_finished hparse hrun
  rw [result_plan] at hplan
  dsimp only at hplan
  rw [hsettings, Except.bind, planOf_raw] at hplan
  have hunder : settings.under { invocation with command := .raw } = settings.under invocation := rfl
  rw [hunder] at hplan
  cases hrecords : files.records (settings.under invocation) none with
  | error problem =>
    rw [hrecords] at hplan
    cases hplan
  | ok records =>
    rw [hrecords] at hplan
    obtain rfl := Except.ok.inj hplan
    rw [run_carryOut, Plan.ofRecords] at hcarried
    dsimp only at hcarried
    rw [runOn_writeAll_cons] at hcarried
    rcases hwrite : Attempt.runOn (writer.writeInto (settings.under invocation).outputDir Plan.recordsFile
      (Record.fileText records)) files with ⟨result, changed⟩
    rw [hwrite] at hcarried
    cases result with
    | error problem => cases (Prod.mk.inj hcarried).1
    | ok value =>
      obtain rfl : changed = after := (Prod.mk.inj hcarried).2
      obtain ⟨prepared, hmade, hwritten⟩ := exists_of_runOn_writeInto_eq_ok hwrite
      exact ⟨records, prepared, hfiles, hrecords, hmade, hwritten⟩

/-- What a path leads to has not changed: it leads nowhere if it did before, and what is read through it is the same. No
file need change for this to fail, since a path may lead to a file as soon as a directory on its way is made. -/
def KeepsFile (files after : FileSystem) (path : String) : Prop :=
  after.isPresent path = files.isPresent path ∧ (after.read path).toOption = (files.read path).toOption

/-- The template files have not changed: those in places with plain names hold what they held, and of each other one
that is read which was read through the path of its record. -/
def KeepsTemplates (files after : FileSystem) (settings : Settings) : Prop :=
  ∀ place ∈ files.templates settings,
    place.IsPlain ∧ after.octets? place = files.octets? place ∨
      (after.read (pageKey place.octets)).toOption = (files.read (pageKey place.octets)).toOption

namespace Recorded

variable (h : Recorded files prepared after settings records)

include h

/-- Between the walk and the saved records the output directory was made. -/
theorem made_output : Made files settings.outputDir (.ok (), prepared) := by
  have hmade := made_makeDirectories h.wellFormed.grounded settings.outputDir
  rwa [h.made] at hmade

theorem prepared_grounded : prepared.Grounded := grounded_of_makeDirectories h.wellFormed.grounded h.made

theorem after_grounded : after.Grounded := by
  obtain ⟨target, -, hgains⟩ := gains_of_write h.prepared_grounded h.written
  exact h.prepared_grounded.gains hgains

/-- The saved file is the only difference that is left. -/
theorem twins : Twins prepared after settings.outputDir := by
  obtain ⟨target, -, hgains⟩ := gains_of_write h.prepared_grounded h.written
  exact ⟨h.prepared_grounded, h.made_output.2 rfl, target.place, _, hgains⟩

/-- A path that led somewhere leads there still. -/
theorem leadsTo {purpose : Purpose} {path : String} {place : Place}
    (hleads : files.LeadsTo purpose path (.found place)) : after.LeadsTo purpose path (.found place) := by
  obtain ⟨target, -, hgains⟩ := gains_of_write h.prepared_grounded h.written
  exact (h.made_output.1.leadsTo hleads).gains hgains

/-- The saved records are those of the walk. -/
theorem records_saved (other : Settings) : after.records other (some (savedPath settings)) = .ok records := by
  refine (after.records_saved_eq_ok_iff).2 ⟨Record.fileText records, ?_, ?_⟩
  · refine (after.text_eq_ok_iff).2 ⟨_, read_of_write h.prepared_grounded h.written, ?_⟩
    rw [Text.Utf8.decode?_encode, Option.map_some, String.ofList_toList]
  · exact Record.ofFileText?_fileText (h.wellFormed.fits_of_mem_records h.walked)

/-- Through the path of a record that is read which was read before. -/
theorem read_record (hkeeps : KeepsTemplates files after settings) {record : Record} (hrecord : record ∈ records) :
    (after.read record.path).toOption = (files.read record.path).toOption := by
  obtain ⟨place, htemplate, file, hfile, rfl, hne, hlength, -⟩ :=
    h.wellFormed.exists_template_of_mem_records h.walked hrecord
  rcases hkeeps place htemplate with ⟨hplain, hoctets⟩ | hread
  · have hleads : files.LeadsTo .look (pageKey place.octets) (.found place) :=
      h.wellFormed.leadsTo_pageKey hfile (fun _ => Node.noConfusion) hplain hne hlength
    -- the place has kept its octets, so it still holds a file
    rw [octets?_eq_some_iff.2 ⟨file, hfile, rfl⟩, octets?_eq_some_iff] at hoctets
    obtain ⟨now, hnow, heq⟩ := hoctets
    have hbefore : files.read (pageKey place.octets) = .ok file.octets := read_eq_ok_iff.2 ⟨_, _, hleads, hfile, rfl⟩
    have hafter : after.read (pageKey place.octets) = .ok file.octets :=
      read_eq_ok_iff.2 ⟨_, _, h.leadsTo hleads, hnow, heq⟩
    change (after.read (pageKey place.octets)).toOption = (files.read (pageKey place.octets)).toOption
    rw [hbefore, hafter]
  · exact hread

/-- **The pages are those that they were.** -/
theorem corpus_eq (hroot : ∃ place, files.canonicalize settings.contentRootPath = .ok place)
    (hkeeps : KeepsTemplates files after settings) : after.corpus settings records = files.corpus settings records := by
  obtain ⟨place, hplace⟩ := hroot
  have hplace' : after.canonicalize settings.contentRootPath = .ok place :=
    canonicalize_eq_ok_iff.2 (h.leadsTo (canonicalize_eq_ok_iff.1 hplace))
  have hroots : after.contentRoot settings = files.contentRoot settings := by
    rw [contentRoot_of_canonicalize hplace, contentRoot_of_canonicalize hplace']
  rw [corpus, corpus, hroots]
  refine congrArg Page.sort (List.map_congr_left fun record hrecord => ?_)
  rw [page_eq, page_eq, h.read_record hkeeps hrecord]

/-- A plan for the output directory has the same effect before the records were saved and afterwards. -/
theorem sameRun {plan : Plan} (hdirectory : plan.directory = settings.outputDir) (hfiles : plan.files ≠ []) :
    SameRun ((writer.carryOut plan).run files) ((writer.carryOut plan).run after) settings.outputDir
      (plan.files.map Prod.fst) := by
  have hmade := h.made
  have htwins := h.twins
  rw [← hdirectory] at hmade htwins ⊢
  rw [carryOut_of_made hmade htwins.prepared hfiles]
  exact carryOut_twins htwins

end Recorded

/-- **Starting from saved records is starting from the walk.** Let records be saved by a run that ends well, in a
file system where the content root exists, and let this change neither what the path of the configuration file leads
to nor, of the template files, what the pages are read from. Then a run that starts from the saved records writes the
same files as a run that walks the file system as it was before, with the same exit code and the same output. -/
theorem run_from_saved_records {rawWords : List String} {printed : String} (hfiles : files.WellFormed)
    (hsettings : files.settings invocation.configuration environment = .ok settings)
    (hroot : ∃ place, files.canonicalize (settings.under invocation).contentRootPath = .ok place)
    (hparse : CommandLine.parse rawWords = .ok { invocation with command := .raw })
    (hraw : files.run coloured environment rawWords = (.finished printed, after))
    (hconfiguration : KeepsFile files after (configurationPath invocation.configuration environment))
    (htemplates : KeepsTemplates files after (settings.under invocation)) :
    let directory := (settings.under invocation).outputDir
    let saved := savedPath (settings.under invocation)
    (∀ coloured words savedWords, CommandLine.parse words = .ok { invocation with command := .shallow none } →
      CommandLine.parse savedWords = .ok { invocation with command := .shallow (some saved) } →
      SameRun (files.run coloured environment words) (after.run coloured environment savedWords) directory
        [Plan.pagesFile]) ∧
    ∀ coloured summary words savedWords, CommandLine.parse words = .ok { invocation with command := .deep none summary } →
      CommandLine.parse savedWords = .ok { invocation with command := .deep (some saved) summary } →
      SameRun (files.run coloured environment words) (after.run coloured environment savedWords) directory
        [Plan.pagesFile, Plan.treesFile] := by
  obtain ⟨records, prepared, hrecorded⟩ := exists_recorded invocation hfiles hsettings hparse hraw
  have hsettings' := settings_of_unchanged hconfiguration.1 hconfiguration.2 hsettings
  have hcorpus := hrecorded.corpus_eq hroot htemplates
  have hwalked := hrecorded.walked
  have hsaved := hrecorded.records_saved (settings.under invocation)
  constructor
  · intro coloured words savedWords hwords hsavedWords
    -- both runs have the plan for the pages of the walk
    rw [run_shallow coloured invocation hwords hsettings hwalked,
      run_shallow coloured invocation hsavedWords hsettings' hsaved, hcorpus]
    exact hrecorded.sameRun rfl (List.cons_ne_nil _ _)
  · intro coloured summary words savedWords hwords hsavedWords
    rw [run_deep coloured invocation hwords hsettings hwalked,
      run_deep coloured invocation hsavedWords hsettings' hsaved, hcorpus]
    exact hrecorded.sameRun rfl (List.cons_ne_nil _ _)

/-! ### The shop -/

/-- The shop when its records have been saved. -/
def savedShop : FileSystem := ((writer.carryOut (.ofRecords false false "out" shopRecords)).run shop).2

/-- The pages of the shop, found and found again, and their trees. -/
theorem run_from_saved_records_shop :
    shop.run false none ["raw", "--stores-dir", "stores", "-o", "out"] =
      (.finished "✓ 2 page(s) written to out/jsp.json\n", savedShop) ∧
    SameRun (shop.run false none ["shallow", "--stores-dir", "stores", "-o", "out"])
      (savedShop.run false none ["shallow", "--records", "out/jsp.json", "--stores-dir", "stores", "-o", "out"]) "out"
      [Plan.pagesFile] ∧
    SameRun (shop.run false none ["deep", "--summary", "--stores-dir", "stores", "-o", "out"])
      (savedShop.run false none ["deep", "--summary", "--records", "out/jsp.json", "--stores-dir", "stores", "-o", "out"]) "out"
      [Plan.pagesFile, Plan.treesFile] := by
  have hparse : CommandLine.parse ["raw", "--stores-dir", "stores", "-o", "out"] = .ok shopInvocation := by decide +kernel
  have htemplates : shop.templates (Settings.under {} shopInvocation) = shopPlaces := by
    rw [survey_shop.templates_eq]
    decide +kernel
  have hraw : shop.run false none ["raw", "--stores-dir", "stores", "-o", "out"] =
      (.finished "✓ 2 page(s) written to out/jsp.json\n", savedShop) := by
    have hfinished : ((writer.carryOut (.ofRecords false false "out" shopRecords)).run shop).1 =
        .finished "✓ 2 page(s) written to out/jsp.json\n" := by decide +kernel
    have hplan : Plan.ofRecords false shopInvocation.quiet (Settings.under {} shopInvocation).outputDir shopRecords =
        .ofRecords false false "out" shopRecords := rfl
    rw [run_raw false shopInvocation hparse settings_shop records_shop, hplan, savedShop, ← hfinished]
    exact (Prod.eta _).symm
  have hroot : shop.canonicalize (Settings.under {} shopInvocation).contentRootPath =
      .ok [Name.ofText "shop", Name.ofText "WebContent"] := by decide +kernel
  have hconfiguration : KeepsFile shop savedShop (configurationPath none none) := ⟨by decide +kernel, by decide +kernel⟩
  have hkept : KeepsTemplates shop savedShop (Settings.under {} shopInvocation) := by
    have heach : ∀ place ∈ shopPlaces,
        (∀ name ∈ place, Name.IsPlain name) ∧ savedShop.octets? place = shop.octets? place := by decide +kernel
    rw [KeepsTemplates, htemplates]
    exact fun place hplace => .inl (heach place hplace)
  obtain ⟨hshallow, hdeep⟩ :=
    run_from_saved_records survey_shop.wellFormed settings_shop ⟨_, hroot⟩ hparse hraw hconfiguration hkept
  exact ⟨hraw, hshallow false _ _ (by decide +kernel) (by decide +kernel),
    hdeep false true _ _ (by decide +kernel) (by decide +kernel)⟩

/-! ### A misnamed page -/

/-- A shop with a page whose page path leads to another place, by a link even to where its records will be saved. -/
def misnamed : FileSystem where
  current := []
  root := .directory
    [(Name.ofText "l", .directory [(Name.ofText "file='z.jsp'.jsp", .link (Text.Utf8.encode "/o/jsp.json".toList))]),
      (Name.ofText "s", .directory
        [(Name.ofText "..\\l\\file='z.jsp'.jsp", .file { octets := [] }), (Name.ofText "WebContent", .directory [])])]

/-- Where the shop is and where its data files go. -/
def misnamedInvocation : Invocation := { command := .raw, storesDir := some "s", outputDir := some "o" }

/-- The record of the page. -/
def misnamedRecord : Record := { path := "/l/file='z.jsp'.jsp", root := "/l", name := "..\\l\\file='z.jsp'.jsp" }

/-- The page, as it is found with some references. -/
def misnamedPage (references : List String) : Page :=
  { name := misnamedRecord.name, path := misnamedRecord.path, references }

/-- The shop when its record has been saved. -/
def savedMisnamed : FileSystem := ((writer.carryOut (.ofRecords false false "o" [misnamedRecord])).run misnamed).2

theorem survey_misnamed : Survey misnamed (Settings.under {} misnamedInvocation) [Name.ofText "s"] := by decide +kernel

/-- Saving the record changes neither the configuration file nor a template file. -/
theorem recorded_misnamed :
    misnamed.settings none none = .ok {} ∧ KeepsFile misnamed savedMisnamed (configurationPath none none) ∧
    misnamed.run false none ["raw", "--stores-dir", "s", "-o", "o"] =
      (.finished "✓ 1 page(s) written to o/jsp.json\n", savedMisnamed) ∧
    (∀ place ∈ misnamed.templates (Settings.under {} misnamedInvocation),
      savedMisnamed.octets? place = misnamed.octets? place) ∧
    ∃ prepared, Recorded misnamed prepared savedMisnamed (Settings.under {} misnamedInvocation) [misnamedRecord] := by
  have hparse : CommandLine.parse ["raw", "--stores-dir", "s", "-o", "o"] = .ok misnamedInvocation := by decide +kernel
  have hmissing : misnamed.isPresent (configurationPath none none) = false := by decide +kernel
  have hsettings := settings_of_missing hmissing
  have hconfiguration : KeepsFile misnamed savedMisnamed (configurationPath none none) :=
    ⟨by decide +kernel, by decide +kernel⟩
  have hrecords : misnamed.records (Settings.under {} misnamedInvocation) none = .ok [misnamedRecord] := by
    rw [survey_misnamed.records_eq]
    decide +kernel
  have hfinished : ((writer.carryOut (.ofRecords false false "o" [misnamedRecord])).run misnamed).1 =
      .finished "✓ 1 page(s) written to o/jsp.json\n" := by decide +kernel
  have hplan : Plan.ofRecords false misnamedInvocation.quiet (Settings.under {} misnamedInvocation).outputDir
      [misnamedRecord] = .ofRecords false false "o" [misnamedRecord] := rfl
  have hrun : misnamed.run false none ["raw", "--stores-dir", "s", "-o", "o"] =
      (.finished "✓ 1 page(s) written to o/jsp.json\n", savedMisnamed) := by
    rw [run_raw false misnamedInvocation hparse hsettings hrecords, hplan, savedMisnamed, ← hfinished]
    exact (Prod.eta _).symm
  obtain ⟨records, prepared, hrecorded⟩ :=
    exists_recorded misnamedInvocation survey_misnamed.wellFormed hsettings hparse hrun
  obtain rfl := Except.ok.inj (hrecorded.walked.symm.trans hrecords)
  refine ⟨hsettings, hconfiguration, hrun, ?_, prepared, hrecorded⟩
  rw [survey_misnamed.templates_eq]
  decide +kernel

/-- Through the path of the page its own record is read when that has been saved, and so it has references. -/
theorem corpus_savedMisnamed :
    savedMisnamed.corpus (Settings.under {} misnamedInvocation) [misnamedRecord] =
      [misnamedPage ["/l/z.jsp", "/l/z.jsp"]] := by
  obtain ⟨-, -, -, -, prepared, hrecorded⟩ := recorded_misnamed
  have hprepared : prepared = ((writer.makeDirectories "o").run misnamed).2 := congrArg Prod.snd hrecorded.made.symm
  -- both paths lead to the name that is still missing in the output directory
  have hread : prepared.locate .look misnamedRecord.path = .ok (.absent [Name.ofText "o"] (Name.ofText "jsp.json")) := by
    rw [hprepared]
    decide +kernel
  have hwrite : prepared.locate .write (savedPath (Settings.under {} misnamedInvocation)) =
      .ok (.absent [Name.ofText "o"] (Name.ofText "jsp.json")) := by
    rw [hprepared]
    decide +kernel
  have hoctets := (locate_eq_ok_iff.1 hread).read_of_write (locate_eq_ok_iff.1 hwrite) hrecorded.prepared_grounded
    hrecorded.written
  have hroot : savedMisnamed.contentRoot (Settings.under {} misnamedInvocation) = "/s/WebContent" := by decide +kernel
  have hreferences : (Resolver.below "/s/WebContent" (Settings.under {} misnamedInvocation).layout).extract
      misnamedRecord.pageRoot (Record.fileText [misnamedRecord]) = ["/l/z.jsp", "/l/z.jsp"] := by decide +kernel
  have hpath : normalize misnamedRecord.path = misnamedRecord.path := by decide +kernel
  rw [corpus, List.map_singleton, page_eq, hoctets, hroot, Except.toOption, Option.elim, Text.Utf8.decodeLossy_encode,
    String.ofList_toList, hreferences, Page.ofRecord, hpath, Page.sort, List.mergeSort_singleton]
  rfl

/-- What is written of the page, before and afterwards. -/
theorem read_shallow_misnamed :
    (misnamed.run false none ["shallow", "--stores-dir", "s", "-o", "o"]).2.read
      (DiskPath.join "o" Plan.pagesFile) = .ok (Text.Utf8.encode (Page.fileText [misnamedPage []]).toList) ∧
    (savedMisnamed.run false none ["shallow", "--records", "o/jsp.json", "--stores-dir", "s", "-o", "o"]).2.read
      (DiskPath.join "o" Plan.pagesFile) =
        .ok (Text.Utf8.encode (Page.fileText [misnamedPage ["/l/z.jsp", "/l/z.jsp"]]).toList) := by
  obtain ⟨hsettings, hconfiguration, -, -, prepared, hrecorded⟩ := recorded_misnamed
  have hplan : ∀ pages, Plan.ofPages false misnamedInvocation.quiet (Settings.under {} misnamedInvocation).outputDir pages =
      .ofPages false false "o" pages := fun _ => rfl
  constructor
  · have hparse : CommandLine.parse ["shallow", "--stores-dir", "s", "-o", "o"] =
        .ok { misnamedInvocation with command := .shallow none } := by decide +kernel
    have hpage : misnamed.page (Resolver.below (misnamed.contentRoot (Settings.under {} misnamedInvocation))
        (Settings.under {} misnamedInvocation).layout) misnamedRecord = misnamedPage [] := by decide +kernel
    have hcorpus : misnamed.corpus (Settings.under {} misnamedInvocation) [misnamedRecord] = [misnamedPage []] := by
      rw [corpus, List.map_singleton, hpage, Page.sort, List.mergeSort_singleton]
    have hfinished : ((writer.carryOut (.ofPages false false "o" [misnamedPage []])).run misnamed).1 =
        .finished "✓ 1 page(s) written to o/shallow.json\n" := by decide +kernel
    rw [run_shallow false misnamedInvocation hparse hsettings hrecorded.walked, hcorpus, hplan]
    exact read_of_carryOut survey_misnamed.current (List.nil_append _).symm hfinished
  · have hparse : CommandLine.parse ["shallow", "--records", "o/jsp.json", "--stores-dir", "s", "-o", "o"] =
        .ok { misnamedInvocation with command := .shallow (some "o/jsp.json") } := by decide +kernel
    have hunchanged := settings_of_unchanged hconfiguration.1 hconfiguration.2 hsettings
    have hsaved := hrecorded.records_saved (Settings.under {} misnamedInvocation)
    have hfinished : ((writer.carryOut (.ofPages false false "o" [misnamedPage ["/l/z.jsp", "/l/z.jsp"]])).run
        savedMisnamed).1 = .finished "✓ 1 page(s) written to o/shallow.json\n" := by decide +kernel
    rw [run_shallow false misnamedInvocation hparse hunchanged hsaved, corpus_savedMisnamed, hplan]
    exact read_of_carryOut hrecorded.after_grounded (List.nil_append _).symm hfinished

/-- **A page that is read through another path** may have other references when the run starts from saved records,
although no template file has changed. -/
theorem not_sameRun_misnamed :
    misnamed.WellFormed ∧ misnamed.settings none none = .ok {} ∧
    (∃ place, misnamed.canonicalize (Settings.under {} misnamedInvocation).contentRootPath = .ok place) ∧
    misnamed.run false none ["raw", "--stores-dir", "s", "-o", "o"] =
      (.finished "✓ 1 page(s) written to o/jsp.json\n", savedMisnamed) ∧
    KeepsFile misnamed savedMisnamed (configurationPath none none) ∧
    (∀ place ∈ misnamed.templates (Settings.under {} misnamedInvocation),
      savedMisnamed.octets? place = misnamed.octets? place) ∧
    ¬ SameRun (misnamed.run false none ["shallow", "--stores-dir", "s", "-o", "o"])
      (savedMisnamed.run false none ["shallow", "--records", "o/jsp.json", "--stores-dir", "s", "-o", "o"]) "o"
      [Plan.pagesFile] := by
  obtain ⟨hsettings, hconfiguration, hrun, htemplates, -⟩ := recorded_misnamed
  have hroot : misnamed.canonicalize (Settings.under {} misnamedInvocation).contentRootPath =
      .ok [Name.ofText "s", Name.ofText "WebContent"] := by decide +kernel
  refine ⟨survey_misnamed.wellFormed, hsettings, ⟨_, hroot⟩, hrun, hconfiguration, htemplates, fun hsame => ?_⟩
  have hread := hsame.files.1
  rw [read_shallow_misnamed.1, read_shallow_misnamed.2] at hread
  -- the same octets would hold the same pages
  have htext := String.toList_inj.1 (Text.Utf8.encode_injective (Option.some.inj hread))
  have hfits : ∀ references, ∀ page ∈ [misnamedPage references], page.Fits := by
    intro references page hpage
    obtain rfl := List.mem_singleton.1 hpage
    exact Nat.zero_lt_succ _
  have hpages := Page.ofFileText?_fileText (hfits [])
  rw [htext, Page.ofFileText?_fileText (hfits _)] at hpages
  exact absurd hpages (by decide)

end FileSystem

end PageGraph
