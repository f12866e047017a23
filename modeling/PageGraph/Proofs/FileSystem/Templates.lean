import PageGraph.Proofs.DataFile.Records
import PageGraph.Proofs.FileSystem.Scanning
import PageGraph.Proofs.FileSystem.Walking

/-!
# Template files

The records of a walk stand for the template files below the stores directory, one for each, and a record is known by
its path if the names of its place are plain.

* `templates` : the places of the template files that a walk finds;
* `exists_template_of_mem_records` : the template file of a record;
* `Survey.records_eq` : the records of a walk where each directory is in order;
* `shop` : a small file system, with its survey, its settings and its records.
-/

namespace PageGraph.FileSystem

/-- The places of the template files that a walk finds. -/
def templates (files : FileSystem) (settings : Settings) : List Place :=
  match files.canonicalize settings.storesDir with
  | .error _ => []
  | .ok base =>
    ((files.tree base).files.filter fun (place, _) =>
      settings.layout.isTemplate (Name.toText (place.getLastD []))).map fun (place, _) => base ++ place

/-- The octets of the file at a place. -/
def octets? (files : FileSystem) (place : Place) : Option (List UInt8) :=
  match files.at? place with
  | some (.file file) => some file.octets
  | _ => none

variable {files : FileSystem} {settings : Settings} {records : List Record} {record : Record} {place : Place}

theorem octets?_eq_some_iff {octets : List UInt8} :
    files.octets? place = some octets ↔ ∃ file, files.at? place = some (.file file) ∧ file.octets = octets := by
  rw [octets?]
  split
  · next file hfile => simp [hfile]
  · next hnone =>
    constructor
    · exact fun h => nomatch h
    · rintro ⟨file, hfile, -⟩
      exact absurd hfile (hnone file)

/-- Each record of a walk is that of a template file, which lies below a directory and no further down than a path
reaches. -/
theorem WellFormed.exists_template_of_mem_records (h : files.WellFormed)
    (hrecords : files.records settings none = .ok records) (hrecord : record ∈ records) :
    ∃ place ∈ files.templates settings, ∃ file, files.at? place = some (.file file) ∧
      record = .ofFile place file.info ∧ place ≠ [] ∧ place.octets.length ≤ Route.maxLength ∧
      ∃ base rest, files.canonicalize settings.storesDir = .ok base ∧ place = base ++ rest := by
  obtain ⟨base, hdirectory, hcanonical, rfl⟩ := (files.records_walked_eq_ok_iff).1 hrecords
  obtain ⟨⟨place, info⟩, hmem, rfl⟩ := List.mem_map.1 hrecord
  obtain ⟨⟨file, hfile, rfl⟩, hlength⟩ := h.at?_of_mem_tree (List.mem_of_mem_filter hmem)
  -- the stores directory is a directory, so the file lies below it
  obtain ⟨place', hleads, hbase⟩ := isDirectory_iff.1 hdirectory
  obtain rfl := Target.found.inj ((canonicalize_eq_ok_iff.1 hcanonical).spellOut_unique hleads)
  have hplace : place ≠ [] := by
    rintro rfl
    rw [List.append_nil, hbase] at hfile
    cases hfile
  have hne : base ++ place ≠ [] := by simp [hplace]
  refine ⟨base ++ place, ?_, file, hfile, rfl, hne, ?_, base, place, hcanonical, rfl⟩
  · rw [templates, hcanonical]
    exact List.mem_map.2 ⟨_, hmem, rfl⟩
  · rw [Place.octets_of_ne_nil hne]
    exact hlength hplace

/-- The sizes of the records of a walk have at most 64 bits. -/
theorem WellFormed.fits_of_mem_records (h : files.WellFormed) (hrecords : files.records settings none = .ok records) :
    ∀ record ∈ records, record.Fits := by
  intro record hrecord
  obtain ⟨place, -, file, hfile, rfl, -⟩ := h.exists_template_of_mem_records hrecords hrecord
  exact h.sizes place file hfile

/-! ### Surveys -/

/-- What a walk of a file system finds on its way: that the file system is well-formed, the place of the stores directory,
and that each directory below it is in order. All of it can be checked. -/
structure Survey (files : FileSystem) (settings : Settings) (base : Place) : Prop where
  current : files.at? files.current = some .directory
  admitted : files.root.every isAdmitted = true
  directory : files.isDirectory settings.storesDir = true
  canonical : files.canonicalize settings.storesDir = .ok base
  ordered : (files.tree base).every Entry.isOrdered = true

instance (files : FileSystem) (settings : Settings) (base : Place) : Decidable (Survey files settings base) :=
  decidable_of_iff (files.at? files.current = some .directory ∧ files.root.every isAdmitted = true ∧
      files.isDirectory settings.storesDir = true ∧ files.canonicalize settings.storesDir = .ok base ∧
      (files.tree base).every Entry.isOrdered = true)
    ⟨fun ⟨hcurrent, hadmitted, hdirectory, hcanonical, hordered⟩ => ⟨hcurrent, hadmitted, hdirectory, hcanonical, hordered⟩,
      fun ⟨hcurrent, hadmitted, hdirectory, hcanonical, hordered⟩ => ⟨hcurrent, hadmitted, hdirectory, hcanonical, hordered⟩⟩

namespace Survey

variable {base : Place} (h : Survey files settings base)

include h

theorem wellFormed : files.WellFormed := wellFormed_of_check h.current h.admitted

theorem templates_eq :
    files.templates settings = ((files.tree base).listed.filter fun (place, _) =>
      settings.layout.isTemplate (Name.toText (place.getLastD []))).map fun (place, _) => base ++ place := by
  rw [templates, h.canonical]
  dsimp only
  rw [Entry.files_eq_listed _ h.ordered]

/-- The records come in the order in which the files lie. -/
theorem records_eq :
    files.records settings none = .ok (((files.tree base).listed.filter fun (place, _) =>
      settings.layout.isTemplate (Name.toText (place.getLastD []))).map fun (place, info) =>
        .ofFile (base ++ place) info) := by
  refine (files.records_walked_eq_ok_iff).2 ⟨base, h.directory, h.canonical, ?_⟩
  rw [inventory, Entry.files_eq_listed _ h.ordered]

end Survey

/-! ### A shop -/

/-- A shop with two pages, one of which includes the other. A link leads to it. -/
def shop : FileSystem where
  current := []
  root := .directory
    [(Name.ofText "shop", .directory
        [(Name.ofText "WebContent", .directory
          [(Name.ofText "foot.jsp", .file { octets := [] }),
            (Name.ofText "head.jsp", .file { octets := Text.Utf8.encode "<%@ include file='foot.jsp' %>".toList })])]),
      (Name.ofText "stores", .link (Text.Utf8.encode "/shop".toList))]

/-- Where the shop is and where its data files go. -/
def shopInvocation : Invocation := { command := .raw, storesDir := some "stores", outputDir := some "out" }

/-- The places of the pages of the shop. -/
def shopPlaces : List Place :=
  [[Name.ofText "shop", Name.ofText "WebContent", Name.ofText "foot.jsp"],
    [Name.ofText "shop", Name.ofText "WebContent", Name.ofText "head.jsp"]]

/-- The records of the shop. -/
def shopRecords : List Record :=
  [{ path := "/shop/WebContent/foot.jsp", root := "/shop/WebContent", name := "foot.jsp" },
    { path := "/shop/WebContent/head.jsp", root := "/shop/WebContent", name := "head.jsp", size := 30 }]

theorem survey_shop : Survey shop (Settings.under {} shopInvocation) [Name.ofText "shop"] := by decide +kernel

/-- There is no configuration file. -/
theorem settings_shop : shop.settings none none = .ok {} := settings_of_missing (by decide +kernel)

theorem records_shop : shop.records (Settings.under {} shopInvocation) none = .ok shopRecords := by
  rw [survey_shop.records_eq]
  decide +kernel

end PageGraph.FileSystem
