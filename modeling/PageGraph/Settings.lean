import PageGraph.Disk.Path
import PageGraph.Layout
import PageGraph.Toml.Document

/-!
# Settings

Where the stores lie, where the data files go, and the layout of the store tree. A configuration file says some
of it in TOML and leaves the rest at the defaults, field by field, also inside the layout. A known key with a value
of the wrong type makes the file invalid. What stands under other keys does not matter, but for numbers that cannot be
held.
-/

namespace PageGraph

/-- The settings of a run. -/
structure Settings where
  /-- The directory that is walked for template files. -/
  storesDir : String := "../WebCommerce/Stores"
  /-- The content root, when it is not the marker directory below the stores directory. -/
  contentRoot : Option String := none
  /-- The directory of the data files. -/
  outputDir : String := "processor-output"
  /-- How many pages may be read at once, which makes no difference to what is read. -/
  maxConcurrency : Option Nat := none
  layout : Layout := {}
  deriving DecidableEq, Repr

namespace Settings

/-! ### Values of the usual types -/

/-- The text of a string. -/
def text? : Toml → Option String
  | .string text => some text
  | _ => none

/-- The texts of an array of strings. -/
def texts? : Toml → Option (List String)
  | .array items => items.mapM text?
  | _ => none

/-- A natural number of 64 bits. -/
def count? : Toml → Option Nat
  | .integer n => if 0 ≤ n ∧ n.toNat < UInt64.size then some n.toNat else none
  | _ => none

/-- A field: its value if one is given, and the default otherwise. -/
def field {α : Type} (default : α) (decode : Toml → Option α) : Option Toml → Option α
  | none => some default
  | some value => decode value

/-! ### Reading -/

/-- The keys of a layout, in the order of its fields. -/
def layoutKeys : List String :=
  ["content_root_marker", "cross_store_markers", "style_dir_token", "style_dir_path", "store_dir_token",
    "multi_store_token", "store_variants", "known_store_dirs", "default_store_dir", "reference_attributes",
    "extensions", "invalid_placeholders"]

/-- The layout with the given values in place of the defaults. -/
def layoutOf? (given : String → Option Toml) : Option Layout := do
  let defaults : Layout := {}
  return {
    contentRootMarker := ← field defaults.contentRootMarker text? (given "content_root_marker")
    crossStoreMarkers := ← field defaults.crossStoreMarkers texts? (given "cross_store_markers")
    styleDirToken := ← field defaults.styleDirToken text? (given "style_dir_token")
    styleDirPath := ← field defaults.styleDirPath text? (given "style_dir_path")
    storeDirToken := ← field defaults.storeDirToken text? (given "store_dir_token")
    multiStoreToken := ← field defaults.multiStoreToken text? (given "multi_store_token")
    storeVariants := ← field defaults.storeVariants texts? (given "store_variants")
    knownStoreDirs := ← field defaults.knownStoreDirs texts? (given "known_store_dirs")
    defaultStoreDir := ← field defaults.defaultStoreDir text? (given "default_store_dir")
    referenceAttributes := ← field defaults.referenceAttributes texts? (given "reference_attributes")
    extensions := ← field defaults.extensions texts? (given "extensions")
    invalidPlaceholders := ← field defaults.invalidPlaceholders texts? (given "invalid_placeholders") }

/-- Whether the numbers under the keys that are not among `keys` can be held. -/
def othersAreHeld (keys : List String) (entries : List (String × Toml)) : Bool :=
  entries.all fun (key, value) => keys.contains key || value.isHeld

/-- The layout that a value says: a table with some of the keys, or an array of the values in their order, whose
further items do not matter. A point in time counts as a table without any of the keys. -/
def layout? : Toml → Option Layout
  | .table entries =>
    if othersAreHeld layoutKeys entries then layoutOf? fun key => entries.lookup key else none
  | .array items => layoutOf? fun key => (layoutKeys.zip items).lookup key
  | .dateTime _ => some {}
  | _ => none

/-- The keys of a configuration file. -/
def keys : List String := ["stores_dir", "content_root", "output_dir", "max_concurrency", "layout"]

/-- The settings that a table says. -/
def ofToml? (entries : List (String × Toml)) : Option Settings := do
  guard (othersAreHeld keys entries)
  let defaults : Settings := {}
  return {
    storesDir := ← field defaults.storesDir text? (entries.lookup "stores_dir")
    contentRoot := ← field defaults.contentRoot (fun value => (text? value).map some) (entries.lookup "content_root")
    outputDir := ← field defaults.outputDir text? (entries.lookup "output_dir")
    maxConcurrency :=
      ← field defaults.maxConcurrency (fun value => (count? value).map some) (entries.lookup "max_concurrency")
    layout := ← field defaults.layout layout? (entries.lookup "layout") }

/-- The settings that the text of a configuration file says. -/
def parse? (text : String) : Option Settings := (Toml.parse? text).bind ofToml?

/-! ### Derived settings -/

/-- The content root: the one that is set, or the marker directory below the stores directory. -/
def contentRootPath (settings : Settings) : String :=
  settings.contentRoot.getD (DiskPath.join settings.storesDir settings.layout.contentRootMarker)

end Settings

end PageGraph
