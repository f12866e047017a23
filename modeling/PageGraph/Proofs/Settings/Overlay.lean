import PageGraph.Proofs.FileSystem.Scanning
import PageGraph.Proofs.Text.Utf8
import PageGraph.Proofs.Toml.Documents
import Mathlib.Data.List.Perm.Subperm

/-!
# A configuration overlays the defaults

A configuration file says some of the settings, and some of the layout under a header of its own. Whichever fields are
given, whatever their values are and in whatever order they are written, the settings that are read have these values in
the given fields and the default in every other field, inside the layout as well.

* `Layout.Given`, `Settings.Given` : what is given, and `overlay`, the defaults with it on top;
* `layoutOf?_overlay`, `parse?_document` : the given fields are read, the others are left at their defaults;
* `settingsIn_document` : so they are when the text is loaded from a file.
-/

namespace PageGraph

/-! ### Given fields -/

namespace Toml

variable {fields : List (String × Option Datum)} {entries : List (String × Datum)}

/-- The fields that are given, with their values. -/
def given (fields : List (String × Option Datum)) : List (String × Datum) :=
  fields.filterMap fun (key, datum) => datum.map (Prod.mk key)

theorem mem_given {key : String} {datum : Datum} : (key, datum) ∈ given fields ↔ (key, some datum) ∈ fields := by
  simp only [given, List.mem_filterMap, Option.map_eq_some_iff, Prod.mk.injEq, Prod.exists]
  constructor
  · rintro ⟨other, _, hfield, _, rfl, rfl, rfl⟩
    exact hfield
  · intro hfield
    exact ⟨key, some datum, hfield, datum, rfl, rfl, rfl⟩

theorem map_fst_given_sublist (fields : List (String × Option Datum)) :
    ((given fields).map Prod.fst).Sublist (fields.map Prod.fst) := by
  induction fields with
  | nil => exact .slnil
  | cons field fields ih =>
    obtain ⟨key, datum⟩ := field
    cases datum with
    | none => exact ih.cons key
    | some datum => exact ih.cons_cons key

/-- Given fields are among the fields, in whatever order they stand. -/
theorem map_fst_subperm (hperm : entries.Perm (given fields)) :
    (entries.map Prod.fst).Subperm (fields.map Prod.fst) :=
  (hperm.map Prod.fst).subperm.trans (map_fst_given_sublist fields).subperm

theorem AreKeys.of_subperm {keys others : List String} (h : AreKeys others) (hsub : keys.Subperm others) :
    AreKeys keys := by
  refine ⟨fun key hkey => h.bare key (hsub.subset hkey), ?_⟩
  obtain ⟨between, hperm, hsublist⟩ := hsub
  exact hperm.nodup (h.nodup.sublist hsublist)

/-- **A field is found** with its value if it is given, and with none if it is not. -/
theorem lookup_values (h : AreKeys (fields.map Prod.fst)) (hperm : entries.Perm (given fields))
    {field : String × Option Datum} (hfield : field ∈ fields) :
    (values entries).lookup field.1 = field.2.map Datum.toToml := by
  have hkeys : ((values entries).map Prod.fst).Nodup := by
    rw [map_fst_values]
    exact (h.of_subperm (map_fst_subperm hperm)).nodup
  obtain ⟨key, datum⟩ := field
  refine Option.ext fun value => ?_
  rw [lookup_eq_some_iff_mem hkeys, values, List.mem_map, Option.map_eq_some_iff]
  constructor
  · rintro ⟨⟨other, written⟩, hmem, heq⟩
    obtain ⟨rfl, rfl⟩ := Prod.mk.inj heq
    have hother := mem_given.1 (hperm.mem_iff.1 hmem)
    have hsame := List.inj_on_of_nodup_map h.nodup hother hfield rfl
    exact ⟨written, (Prod.mk.inj hsame).2.symm, rfl⟩
  · rintro ⟨written, rfl, rfl⟩
    exact ⟨(key, written), hperm.mem_iff.2 (mem_given.2 hfield), rfl⟩

end Toml

open Toml (Datum)

/-- Some fields of a layout, with the values that are given to them. -/
structure Layout.Given where
  contentRootMarker : Option String := none
  crossStoreMarkers : Option (List String) := none
  styleDirToken : Option String := none
  styleDirPath : Option String := none
  storeDirToken : Option String := none
  multiStoreToken : Option String := none
  storeVariants : Option (List String) := none
  knownStoreDirs : Option (List String) := none
  defaultStoreDir : Option String := none
  referenceAttributes : Option (List String) := none
  extensions : Option (List String) := none
  invalidPlaceholders : Option (List String) := none
  deriving DecidableEq, Repr

namespace Layout.Given

/-- The layout with the given fields, and the default in every other. -/
def overlay (given : Layout.Given) : Layout :=
  let defaults : Layout := {}
  { contentRootMarker := given.contentRootMarker.getD defaults.contentRootMarker
    crossStoreMarkers := given.crossStoreMarkers.getD defaults.crossStoreMarkers
    styleDirToken := given.styleDirToken.getD defaults.styleDirToken
    styleDirPath := given.styleDirPath.getD defaults.styleDirPath
    storeDirToken := given.storeDirToken.getD defaults.storeDirToken
    multiStoreToken := given.multiStoreToken.getD defaults.multiStoreToken
    storeVariants := given.storeVariants.getD defaults.storeVariants
    knownStoreDirs := given.knownStoreDirs.getD defaults.knownStoreDirs
    defaultStoreDir := given.defaultStoreDir.getD defaults.defaultStoreDir
    referenceAttributes := given.referenceAttributes.getD defaults.referenceAttributes
    extensions := given.extensions.getD defaults.extensions
    invalidPlaceholders := given.invalidPlaceholders.getD defaults.invalidPlaceholders }

/-- The fields under their keys. -/
def fields (given : Layout.Given) : List (String × Option Datum) :=
  [("content_root_marker", given.contentRootMarker.map .text),
    ("cross_store_markers", given.crossStoreMarkers.map .texts),
    ("style_dir_token", given.styleDirToken.map .text),
    ("style_dir_path", given.styleDirPath.map .text),
    ("store_dir_token", given.storeDirToken.map .text),
    ("multi_store_token", given.multiStoreToken.map .text),
    ("store_variants", given.storeVariants.map .texts),
    ("known_store_dirs", given.knownStoreDirs.map .texts),
    ("default_store_dir", given.defaultStoreDir.map .text),
    ("reference_attributes", given.referenceAttributes.map .texts),
    ("extensions", given.extensions.map .texts),
    ("invalid_placeholders", given.invalidPlaceholders.map .texts)]

/-- The given fields with their values. -/
def entries (given : Layout.Given) : List (String × Datum) := Toml.given given.fields

theorem map_fst_fields (given : Layout.Given) : given.fields.map Prod.fst = Settings.layoutKeys := rfl

end Layout.Given

/-- Some of the settings, with the values that are given to them. -/
structure Settings.Given where
  storesDir : Option String := none
  contentRoot : Option String := none
  outputDir : Option String := none
  maxConcurrency : Option ℕ := none
  /-- What is given under the header of the layout, if there is one. -/
  layout : Option Layout.Given := none
  deriving DecidableEq, Repr

namespace Settings

namespace Given

/-- The settings with the given fields, and the default in every other. -/
def overlay (given : Settings.Given) : Settings :=
  let defaults : Settings := {}
  { storesDir := given.storesDir.getD defaults.storesDir
    contentRoot := given.contentRoot.or defaults.contentRoot
    outputDir := given.outputDir.getD defaults.outputDir
    maxConcurrency := given.maxConcurrency.or defaults.maxConcurrency
    layout := given.layout.elim defaults.layout Layout.Given.overlay }

/-- The fields at the top under their keys. -/
def fields (given : Settings.Given) : List (String × Option Datum) :=
  [("stores_dir", given.storesDir.map .text), ("content_root", given.contentRoot.map .text),
    ("output_dir", given.outputDir.map .text), ("max_concurrency", given.maxConcurrency.map .count)]

/-- The given fields at the top with their values. -/
def entries (given : Settings.Given) : List (String × Datum) := Toml.given given.fields

theorem map_fst_fields_append (given : Settings.Given) : given.fields.map Prod.fst ++ ["layout"] = keys := rfl

end Given

/-! ### Keys -/

theorem areKeys_layoutFields (given : Layout.Given) : Toml.AreKeys (given.fields.map Prod.fst) := by
  rw [given.map_fst_fields]
  exact ⟨by decide +kernel, by decide +kernel⟩

theorem areKeys_keys : Toml.AreKeys keys := ⟨by decide +kernel, by decide +kernel⟩

/-- Under known keys every number counts. -/
theorem othersAreHeld_of_subset {known : List String} {entries : List (String × Toml)}
    (h : entries.map Prod.fst ⊆ known) : othersAreHeld known entries = true := by
  rw [othersAreHeld, List.all_eq_true]
  intro entry hentry
  simp [h (List.mem_map_of_mem hentry)]

/-! ### Fields -/

/-- A field is read as it was given, or left at its default. -/
theorem field_map {α : Type} (default : α) {decode : Toml → Option α} {write : α → Datum} (value : Option α)
    (h : ∀ a ∈ value, decode (write a).toToml = some a) :
    field default decode ((value.map write).map Datum.toToml) = some (value.getD default) := by
  cases value with
  | none => rfl
  | some a => exact h a rfl

theorem field_map_some {α : Type} {decode : Toml → Option α} {write : α → Datum} (value : Option α)
    (h : ∀ a ∈ value, decode (write a).toToml = some a) :
    field none (fun toml => (decode toml).map some) ((value.map write).map Datum.toToml) = some (value.or none) := by
  cases value with
  | none => rfl
  | some a => exact congrArg (Option.map some) (h a rfl)

theorem field_text (default : String) (value : Option String) :
    field default text? ((value.map Datum.text).map Datum.toToml) = some (value.getD default) :=
  field_map default value fun _ _ => rfl

theorem field_texts (default : List String) (value : Option (List String)) :
    field default texts? ((value.map Datum.texts).map Datum.toToml) = some (value.getD default) :=
  field_map default value fun _ _ => mapM_map_eq_some fun _ _ => rfl

theorem field_text_some (value : Option String) :
    field none (fun toml => (text? toml).map some) ((value.map Datum.text).map Datum.toToml) = some (value.or none) :=
  field_map_some value fun _ _ => rfl

theorem field_count_some {value : Option ℕ} (h : ∀ n ∈ value, n < UInt64.size) :
    field none (fun toml => (count? toml).map some) ((value.map Datum.count).map Datum.toToml) = some (value.or none) :=
  field_map_some value fun n hn => by simp [Datum.toToml, count?, h n hn]

/-! ### Reading -/

/-- **A partial layout overlays the defaults**, wherever its values are found. -/
theorem layoutOf?_overlay {given : Layout.Given} {source : String → Option Toml}
    (h : ∀ field ∈ given.fields, source field.1 = field.2.map Datum.toToml) : layoutOf? source = some given.overlay := by
  simp only [Layout.Given.fields, List.forall_mem_cons] at h
  simp only [layoutOf?, h, field_text, field_texts, Option.pure_def, Option.bind_eq_bind, Option.bind_some,
    Layout.Given.overlay]

theorem layout?_table {given : Layout.Given} {entries : List (String × Datum)} (hperm : entries.Perm given.entries) :
    layout? (.table (Toml.values entries)) = some given.overlay := by
  have hheld : othersAreHeld layoutKeys (Toml.values entries) = true := by
    refine othersAreHeld_of_subset ?_
    rw [Toml.map_fst_values]
    exact (Toml.map_fst_subperm hperm).subset
  rw [layout?, if_pos hheld]
  exact layoutOf?_overlay fun field hfield => Toml.lookup_values (areKeys_layoutFields given) hperm hfield

variable {given : Settings.Given} {top : List (String × Datum)} {layout : Option (List (String × Datum))}

/-- The layout is read field by field if it has a header, and is the default if it has none. -/
theorem field_layout (default : Layout) {inner : Option Layout.Given}
    (h : Option.Rel List.Perm layout (inner.map Layout.Given.entries)) :
    field default layout? (layout.map fun entries => .table (Toml.values entries)) =
      some (inner.elim default Layout.Given.overlay) := by
  cases inner with
  | none =>
    cases h
    rfl
  | some inner =>
    cases h with
    | some hperm => exact layout?_table hperm

/-- The table of the layout, if there is one. -/
def layoutTable (layout : Option (List (String × Datum))) : Toml.Tables := layout.toList.map (Prod.mk "layout")

theorem areKeys_of_mem_layoutTable {inner : Option Layout.Given}
    (h : Option.Rel List.Perm layout (inner.map Layout.Given.entries)) :
    ∀ table ∈ layoutTable layout, Toml.AreKeys (table.2.map Prod.fst) := by
  intro table htable
  obtain ⟨entries, hentries, rfl⟩ := List.mem_map.1 htable
  obtain rfl := Option.mem_toList.1 hentries
  cases inner with
  | none => cases h
  | some inner =>
    cases h with
    | some hperm => exact (areKeys_layoutFields inner).of_subperm (Toml.map_fst_subperm hperm)

theorem areKeys_top (htop : top.Perm given.entries) : Toml.AreKeys (top.map Prod.fst ++ ["layout"]) :=
  areKeys_keys.of_subperm ((List.subperm_append_right ["layout"]).2 (Toml.map_fst_subperm htop))

theorem map_fst_tableValues_subset (layout : Option (List (String × Datum))) :
    (Toml.tableValues (layoutTable layout)).map Prod.fst ⊆ ["layout"] := by
  cases layout <;> simp [layoutTable, Toml.tableValues]

/-- A field at the top is found among the entries at the top. -/
theorem lookup_top (layout : Option (List (String × Datum))) (htop : top.Perm given.entries)
    {field : String × Option Datum} (hfield : field ∈ given.fields) :
    (Toml.values top ++ Toml.tableValues (layoutTable layout)).lookup field.1 = field.2.map Datum.toToml := by
  have hne : field.1 ≠ "layout" := by
    have hkeys := areKeys_keys.nodup
    rw [← given.map_fst_fields_append] at hkeys
    exact fun heq => List.disjoint_of_nodup_append hkeys (List.mem_map_of_mem hfield) (by simp [heq])
  have hnone : (Toml.tableValues (layoutTable layout)).lookup field.1 = none := by
    rw [List.lookup_eq_none_iff]
    intro entry hentry
    have hkey := List.mem_singleton.1 (map_fst_tableValues_subset layout (List.mem_map_of_mem hentry))
    simp [hkey, hne]
  have hkeys : Toml.AreKeys (given.fields.map Prod.fst) := areKeys_keys.of_subperm
    (List.sublist_append_left _ ["layout"]).subperm
  rw [List.lookup_append, Toml.lookup_values hkeys htop hfield, hnone, Option.or_none]

/-- The layout is found behind the entries at the top. -/
theorem lookup_layout (htop : top.Perm given.entries) (layout : Option (List (String × Datum))) :
    (Toml.values top ++ Toml.tableValues (layoutTable layout)).lookup "layout" =
      layout.map fun entries => .table (Toml.values entries) := by
  have hnone : (Toml.values top).lookup "layout" = none := by
    rw [List.lookup_eq_none_iff]
    intro entry hentry
    have hkey : entry.1 ∈ top.map Prod.fst := Toml.map_fst_values top ▸ List.mem_map_of_mem hentry
    have hne : "layout" ≠ entry.1 := fun heq =>
      List.disjoint_of_nodup_append (areKeys_top htop).nodup hkey (by simp [heq])
    simpa using hne
  rw [List.lookup_append, hnone, Option.none_or]
  cases layout <;> simp [layoutTable, Toml.tableValues]

/-- **Partial settings overlay the defaults.** -/
theorem ofToml?_overlay (hcount : ∀ n ∈ given.maxConcurrency, n < UInt64.size) (htop : top.Perm given.entries)
    (hlayout : Option.Rel List.Perm layout (given.layout.map Layout.Given.entries)) :
    ofToml? (Toml.values top ++ Toml.tableValues (layoutTable layout)) = some given.overlay := by
  have hheld : othersAreHeld keys (Toml.values top ++ Toml.tableValues (layoutTable layout)) = true := by
    refine othersAreHeld_of_subset ?_
    rw [List.map_append, Toml.map_fst_values, ← given.map_fst_fields_append]
    exact List.append_subset.2 ⟨List.subset_append_of_subset_left _ (Toml.map_fst_subperm htop).subset,
      List.subset_append_of_subset_right _ (map_fst_tableValues_subset layout)⟩
  have hfields : ∀ field ∈ given.fields, _ := fun field hfield => lookup_top layout htop hfield
  simp only [Given.fields, List.forall_mem_cons] at hfields
  have hguard : (guard (true = true) : Option Unit) = some () := rfl
  rw [ofToml?, hheld, hguard]
  simp only [hfields, lookup_layout htop, field_text, field_text_some, field_count_some hcount, field_layout _ hlayout,
    Option.pure_def, Option.bind_eq_bind, Option.bind_some, Given.overlay]

/-- The text of a configuration: lines for the fields at the top, and the layout's lines behind their header. -/
def document (spell : Char → List Char) (top : List (String × Datum)) (layout : Option (List (String × Datum))) :
    List Char :=
  Toml.document spell top (layoutTable layout)

variable {spell : Char → List Char}

/-- **A partial configuration overlays the defaults**, however its characters are spelled and in whatever order its fields
are written. -/
theorem parse?_document (hspell : ∀ c, Toml.Spells c (spell c)) (hcount : ∀ n ∈ given.maxConcurrency, n < UInt64.size)
    (htop : top.Perm given.entries) (hlayout : Option.Rel List.Perm layout (given.layout.map Layout.Given.entries)) :
    parse? (String.ofList (document spell top layout)) = some given.overlay := by
  have hkeys : Toml.AreKeys (top.map Prod.fst ++ (layoutTable layout).map Prod.fst) := by
    refine (areKeys_top htop).of_subperm ((List.subperm_append_left _).2 ?_)
    cases layout with
    | none => exact List.nil_subperm
    | some entries => exact List.Subperm.refl _
  rw [parse?, document, Toml.parse?_document hspell hkeys (areKeys_of_mem_layoutTable hlayout), Option.bind_some,
    ofToml?_overlay hcount htop hlayout]

end Settings

/-! ### Loading -/

namespace FileSystem

open Attempt

variable {files : FileSystem} {path : String} {spell : Char → List Char} {given : Settings.Given}
  {top : List (String × Datum)} {layout : Option (List (String × Datum))}

/-- **Loading a partial configuration** gives the defaults with its fields on top: those at the top and, one by one, those
of the layout. It succeeds whichever fields are given, in whatever order they are written, whatever texts and lists of
texts they have and however these are spelled, and for every number of 64 bits. -/
theorem settingsIn_overlay (hspell : ∀ c, Toml.Spells c (spell c)) (hcount : ∀ n ∈ given.maxConcurrency, n < UInt64.size)
    (htop : top.Perm given.entries) (hlayout : Option.Rel List.Perm layout (given.layout.map Layout.Given.entries))
    (hread : files.read path = .ok (Text.Utf8.encode (Settings.document spell top layout))) :
    result (files.disk.settingsIn path) = .ok given.overlay := by
  refine (settingsIn_eq_ok_iff files).2 ⟨_, (text_eq_ok_iff files).2 ⟨_, hread, ?_⟩,
    Settings.parse?_document hspell hcount htop hlayout⟩
  rw [Text.Utf8.decode?_encode, Option.map_some]

/-- Some settings, the greatest number and texts that cannot stand as they are among them. -/
def escapedSettings : Settings.Given where
  storesDir := some "C:\\\"née\"\t\x7F"
  maxConcurrency := some 9223372036854775807
  layout := some { crossStoreMarkers := some [], styleDirToken := some "#]", extensions := some ["jsp", "\"\"\"", "\n"] }

/-- A text that says them, not in the order of the fields. -/
def escapedText : List Char :=
  "max_concurrency = 9223372036854775807\n".toList ++ "stores_dir = \"C:\\\\\\\"née\\\"\\u0009\\u007f\"\n".toList ++
    "[layout]\n".toList ++ "extensions = [\"jsp\", \"\\\"\\\"\\\"\", \"\\u000a\"]\n".toList ++
      "style_dir_token = \"#]\"\n".toList ++ "cross_store_markers = []\n".toList

/-- A file system with one file. -/
def withConfiguration (text : List Char) : FileSystem where
  current := []
  root := .directory [(Text.Utf8.encode "insights.toml".toList, .file { octets := Text.Utf8.encode text })]

/-- Quotes, a backslash and control characters in the texts, an empty list, texts that look like syntax, and the fields in
another order. -/
theorem settingsIn_overlay_escaped :
    (∀ n ∈ escapedSettings.maxConcurrency, n < UInt64.size) ∧
      escapedSettings.entries.reverse.Perm escapedSettings.entries ∧
      Settings.document Toml.escape escapedSettings.entries.reverse
        (escapedSettings.layout.map fun layout => layout.entries.reverse) = escapedText ∧
      result ((withConfiguration escapedText).disk.settingsIn "insights.toml") = .ok
        { storesDir := "C:\\\"née\"\t\x7F"
          maxConcurrency := some 9223372036854775807
          layout := { crossStoreMarkers := [], styleDirToken := "#]", extensions := ["jsp", "\"\"\"", "\n"] } } := by
  have hcount : ∀ n ∈ escapedSettings.maxConcurrency, n < UInt64.size := by decide +kernel
  have htop : escapedSettings.entries.reverse.Perm escapedSettings.entries := List.reverse_perm _
  have hlayout : Option.Rel List.Perm (escapedSettings.layout.map fun layout => layout.entries.reverse)
      (escapedSettings.layout.map Layout.Given.entries) := .some (List.reverse_perm _)
  have htext : Settings.document Toml.escape escapedSettings.entries.reverse
      (escapedSettings.layout.map fun layout => layout.entries.reverse) = escapedText := by decide +kernel
  have hread : ∀ text, (withConfiguration text).read "insights.toml" = .ok (Text.Utf8.encode text) := fun _ => rfl
  have hloaded := settingsIn_overlay Toml.spells_escape hcount htop hlayout (hread _)
  rw [htext] at hloaded
  exact ⟨hcount, htop, htext, hloaded⟩

end FileSystem

end PageGraph
