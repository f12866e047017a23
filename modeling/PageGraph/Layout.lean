import PageGraph.Text.Search

/-!
# The layout of a store tree

The conventions of one store tree: where pages live, which macro tokens references may hold, which attributes
declare a reference and which file names are templates. Every convention is data, so that another tree needs
no other program. A convention that is left empty is off.

`Layout.isTemplate` says which file names are templates: those whose part after the last dot is one of the
extensions, up to ASCII letter case.
-/

namespace PageGraph

/-- The conventions of a store tree. -/
structure Layout where
  /-- The segment below which the stores lie. -/
  contentRootMarker : String := "WebContent"
  /-- Texts that mark a reference as leading into another store. -/
  crossStoreMarkers : List String :=
    ["CABC", "companyCABCCatalogAssetStore", "companyCABCStorefrontAssetStore",
      "companyCAStorefrontAssetStore", "companyGLOBALSAS", "companyUSBCCatalogAssetStore",
      "companyUSBCStorefrontAssetStore", "companyUSStorefrontAssetStore", "USBC"]
  /-- The macro that stands for the style directory. -/
  styleDirToken : String := "$\x7bStyleDir\x7d"
  /-- The style directory, below the content root. -/
  styleDirPath : String := "companyGLOBALSAS/include/styles/style1"
  /-- The macro that stands for the store of the including page. -/
  storeDirToken : String := "$\x7bjspStoreDir\x7d"
  /-- The macro that stands for each storefront variant in turn. -/
  multiStoreToken : String := "$\x7bjspEsitesStoreDir\x7d"
  /-- The storefront variants, in the order of their pages. -/
  storeVariants : List String :=
    ["companyUSStorefrontAssetStore", "companyCAStorefrontAssetStore", "companyUSBCCatalogAssetStore",
      "companyCABCCatalogAssetStore"]
  /-- The directories that are stores. -/
  knownStoreDirs : List String :=
    ["CABC", "USBC", "companyCABCCatalogAssetStore", "companyCABCStorefrontAssetStore",
      "companyCAStorefrontAssetStore", "companyUSBCCatalogAssetStore", "companyUSBCStorefrontAssetStore",
      "companyUSStorefrontAssetStore", "companyGLOBALSAS"]
  /-- The store of a page that lies in none of them. -/
  defaultStoreDir : String := "companyGLOBALSAS"
  /-- The attributes whose values may name a page. -/
  referenceAttributes : List String := ["file", "url", "page", "value"]
  /-- The extensions of template files, without the dot. -/
  extensions : List String := ["jsp", "jspf"]
  /-- Texts that mark a value as naming no file. -/
  invalidPlaceholders : List String :=
    ["$\x7brichMediaFileParam\x7d", "$\x7belement.elementInnerContent.objectId\x7d", "$\x7bjsp_name\x7d"]
  deriving DecidableEq, Repr

namespace Layout

/-- Equality up to ASCII letter case. -/
def sameUpToCase (a b : List Char) : Bool := a.map Char.toLower = b.map Char.toLower

/-- Whether a file name is that of a template. -/
def isTemplate (layout : Layout) (name : String) : Bool :=
  match Text.splitAtLast? ['.'] name.toList with
  | some (_, extension) => layout.extensions.any fun known => sameUpToCase known.toList extension
  | none => false

/-- Whether a text holds one of the cross-store markers. -/
def namesStore (layout : Layout) (text : List Char) : Bool :=
  Text.anyOccursIn layout.crossStoreMarkers text

/-- Whether a value may name a file: it holds no placeholder. -/
def isReference (layout : Layout) (value : String) : Bool :=
  !Text.anyOccursIn layout.invalidPlaceholders value.toList

end Layout

end PageGraph
