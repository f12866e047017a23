import PageGraph.Page
import PageGraph.Proofs.PagePath.Joining

/-!
# Paths of pages are keys

Pages are looked up by their paths, text by text, so a path that is not spelled in normal form leads nowhere. Every path
that a page brings into a corpus is in normal form: its own, and those of its references, whatever they are in the text
and whichever rule anchors them. If what they are joined to starts at the root, so do they.

* `IsKey` : a path in normal form, from the root where that can be said;
* `place_isKey` : a reference is a key wherever it is anchored;
* `build_isKey` : the paths of a page are keys.
-/

namespace PageGraph

open PagePath

/-- A path is in normal form, and it starts at the root if it has to. -/
def IsKey (rooted : Prop) (path : String) : Prop :=
  normalize path = path ∧ (rooted → path.toList.head? = some '/')

/-- The content root starts at the root, and so does the path that tells the directory of a page: the one recorded as
its root, or its own if none is recorded. -/
def StartsAtRoot (contentRoot : String) (record : Record) : Prop :=
  isRooted contentRoot.toList = true ∧ isRooted (if record.root = "" then record.path else record.root).toList = true

instance (contentRoot : String) (record : Record) : Decidable (StartsAtRoot contentRoot record) :=
  inferInstanceAs (Decidable (_ ∧ _))

variable {contentRoot : String} {record : Record} {rooted : Prop}

theorem isKey_join {base : String} (h : rooted → isRooted base.toList = true) (relative : String) :
    IsKey rooted (join base relative) :=
  ⟨normalize_join base relative, fun hrooted => head?_join (h hrooted) relative⟩

/-- The directory of a page starts at the root. -/
theorem StartsAtRoot.isRooted_pageRoot (h : StartsAtRoot contentRoot record) :
    isRooted record.pageRoot.toList = true := by
  have hroot := h.2
  rw [Record.pageRoot]
  by_cases hempty : record.root = ""
  · rw [if_pos hempty, ← head?_normalize_iff] at hroot
    rw [if_pos (by simpa using hempty), isRooted_iff]
    exact .inl (head?_directory hroot)
  · rw [if_neg hempty] at hroot
    rw [if_neg (by simpa using hempty), isRooted_normalize]
    exact hroot

namespace Resolver

variable {resolver : Resolver} {root : String}

/-- What a reference is joined to starts at the root, wherever it is anchored. -/
theorem isRooted_base (hcontent : isRooted resolver.contentRoot.toList = true) (hroot : isRooted root.toList = true)
    (anchor : Anchor) : isRooted (resolver.base root anchor).toList = true := by
  cases anchor with
  | contentRoot => exact hcontent
  | styleDir => exact isRooted_iff.2 (.inl (head?_join hcontent _))
  | storeDir => exact isRooted_iff.2 (.inl (head?_join hcontent _))
  | pageDir => exact hroot

/-- **A reference is a key** wherever it is anchored. -/
theorem place_isKey (h : rooted → isRooted resolver.contentRoot.toList = true ∧ isRooted root.toList = true)
    (anchor : Anchor) : IsKey rooted (resolver.place root anchor) :=
  isKey_join (fun hrooted => isRooted_base (h hrooted).1 (h hrooted).2 anchor) _

theorem resolve_isKey (h : rooted → isRooted resolver.contentRoot.toList = true ∧ isRooted root.toList = true)
    (reference : String) : ∀ path ∈ resolver.resolve root reference, IsKey rooted path := by
  intro path hpath
  obtain ⟨candidate, -, rfl⟩ := List.mem_map.1 hpath
  exact place_isKey h (resolver.anchor candidate)

end Resolver

/-- **The paths of a page are keys**: its own, those of its references, and those that any reference in it would have,
wherever it is anchored. -/
theorem build_isKey (contentRoot : String) (layout : Layout) (record : Record) (text : String) :
    let resolver := Resolver.below contentRoot layout
    let page := Page.build resolver record text
    normalize page.path = page.path ∧
      (∀ path ∈ page.references, IsKey (StartsAtRoot contentRoot record) path) ∧
      (∀ reference, ∀ path ∈ resolver.resolve record.pageRoot reference, IsKey (StartsAtRoot contentRoot record) path) ∧
      ∀ anchor, IsKey (StartsAtRoot contentRoot record) (resolver.place record.pageRoot anchor) := by
  intro resolver page
  have hrooted : StartsAtRoot contentRoot record →
      isRooted resolver.contentRoot.toList = true ∧ isRooted record.pageRoot.toList = true := by
    intro h
    exact ⟨(isRooted_normalize contentRoot).trans h.1, h.isRooted_pageRoot⟩
  refine ⟨normalize_normalize record.path, ?_, Resolver.resolve_isKey hrooted, Resolver.place_isKey hrooted⟩
  intro path hpath
  obtain ⟨reference, -, hresolved⟩ := List.mem_flatMap.1 hpath
  exact Resolver.resolve_isKey hrooted reference path hresolved

/-- The record of a page in a store, without a root and with a path that is not in normal form. -/
def cartRecord : Record := { path := "\\repo\\.\\WebContent/USBC//Cart.jsp", root := "", name := "Cart.jsp" }

/-- A reference upwards, and one that stands for two pages. -/
def cartText : String := "url='..\\../a.jsp' page=\"$\x7bjspEsitesStoreDir\x7d//b.jsp \""

/-- The page of this record and text, in a layout with two storefront variants. -/
def cartPage : Page :=
  Page.build (Resolver.below "\\repo/WebContent/" { storeVariants := ["CABC", "x\\.\\y"] }) cartRecord cartText

theorem build_isKey_cart :
    StartsAtRoot "\\repo/WebContent/" cartRecord ∧
      cartPage.references = ["/repo/a.jsp", "/repo/WebContent/CABC/b.jsp", "/repo/WebContent/USBC/x/y/b.jsp"] ∧
      ∀ path ∈ cartPage.references, normalize path = path ∧ path.toList.head? = some '/' := by
  have hstarts : StartsAtRoot "\\repo/WebContent/" cartRecord := by decide +kernel
  obtain ⟨-, hreferences, -⟩ := build_isKey "\\repo/WebContent/" { storeVariants := ["CABC", "x\\.\\y"] } cartRecord
    cartText
  refine ⟨hstarts, by decide +kernel, fun path hpath => ?_⟩
  obtain ⟨hnormal, habsolute⟩ := hreferences path hpath
  exact ⟨hnormal, habsolute hstarts⟩

end PageGraph
