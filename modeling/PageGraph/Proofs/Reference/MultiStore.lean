import Mathlib.Data.List.Nodup
import PageGraph.Proofs.PagePath.Joining
import PageGraph.Proofs.Reference.CrossStore

/-!
# References into all storefronts

The multi-store macro stands for each storefront variant in turn, and what comes of it is resolved like any other
reference. Where that leads is a matter of the order of the rules: a variant is the directory of a store, so the rule for
cross-store markers applies before any macro in the rest is looked for, and where no two dots stand in a row there is
nothing to take off and nothing climbs. So each variant has a page in its own directory, wherever the including page is.

* `IsStorefront` : a storefront variant is the directory of a store;
* `place_variant` : the page of a variant;
* `eq_of_liesIn_name` : a path lies below one name of a directory only;
* `multiStore_resolve` : the pages of all variants, one for each.
-/

namespace PageGraph

open PagePath

variable {resolver : Resolver} {upper path reference variant rest : String} {text : List Char}

/-- A storefront variant is the directory of a store: a name in which no two dots stand in a row, and in which a
cross-store marker occurs. -/
structure IsStorefront (layout : Layout) (variant : String) : Prop where
  isName : IsName variant.toList
  noUp : ¬up <:+: variant.toList
  marker : ∃ marker ∈ layout.crossStoreMarkers, marker ≠ "" ∧ marker.toList <:+: variant.toList

instance (layout : Layout) (variant : String) : Decidable (IsStorefront layout variant) :=
  decidable_of_iff (IsName variant.toList ∧ ¬up <:+: variant.toList ∧
      ∃ marker ∈ layout.crossStoreMarkers, marker ≠ "" ∧ marker.toList <:+: variant.toList)
    ⟨fun ⟨hname, hup, hmarker⟩ => ⟨hname, hup, hmarker⟩, fun h => ⟨h.isName, h.noUp, h.marker⟩⟩

/-- In a reference the multi-store macro occurs, for the first time before `rest`, and no two dots stand in a row behind
it. -/
structure IsMultiStoreReference (layout : Layout) (reference rest : String) : Prop where
  token : layout.multiStoreToken ≠ ""
  first : ∃ before, Text.trim reference.toList = before ++ (layout.multiStoreToken.toList ++ rest.toList) ∧
    ∀ earlier later, Text.trim reference.toList = earlier ++ (layout.multiStoreToken.toList ++ later) →
      before.length ≤ earlier.length
  noUp : ¬up <:+: rest.toList

instance (layout : Layout) (reference rest : String) : Decidable (IsMultiStoreReference layout reference rest) :=
  if h : layout.multiStoreToken = "" then .isFalse fun hreference => hreference.token h
  else
    decidable_of_iff (Resolver.afterMacro? layout.multiStoreToken (Text.trim reference.toList) = some rest.toList ∧
        ¬up <:+: rest.toList) (by
      rw [Resolver.afterMacro?_eq_some_iff h]
      exact ⟨fun ⟨hfirst, hup⟩ => ⟨h, hfirst, hup⟩, fun hreference => ⟨hreference.first, hreference.noUp⟩⟩)

/-! ### Two dots in a row -/

/-- Without two dots in a row there is no step upwards. -/
theorem up_notMem_pieces (h : ¬up <:+: text) : up ∉ pieces text := by
  intro hup
  obtain ⟨before, after, htext, -⟩ := exists_of_mem_splitOnP hup
  exact h ⟨before, after, by rw [htext, List.append_assoc]⟩

/-- A slash between two texts does not bring two dots together. -/
theorem not_up_infix_append {below : List Char} (h : ¬up <:+: text) (hbelow : ¬up <:+: below) :
    ¬up <:+: text ++ '/' :: below := by
  rw [infix_append_cons_iff (by decide), not_or]
  exact ⟨h, hbelow⟩

/-! ### The page of a variant -/

/-- **A variant has its page in its own directory**, below the content root. -/
theorem place_variant (hroot : resolver.contentRoot ≠ "") (root : String) (hvariant : IsStorefront resolver.layout variant)
    (hrest : ¬up <:+: rest.toList) :
    resolver.place root (resolver.anchor (variant.toList ++ '/' :: rest.toList)) =
      normalize (resolver.contentRoot ++ "/" ++ variant ++ "/" ++ rest) := by
  have hmarker : resolver.layout.namesStore (variant.toList ++ '/' :: rest.toList) = true := by
    obtain ⟨marker, hmem, hne, hinfix⟩ := hvariant.marker
    exact Text.anyOccursIn_iff.2 ⟨marker, hmem, hne, hinfix.trans (List.prefix_append _ _).isInfix⟩
  have hascent : ¬['.', '.', '/'] <:+: variant.toList ++ '/' :: rest.toList := by
    intro hinfix
    exact not_up_infix_append hvariant.noUp hrest ((List.prefix_append up ['/']).isInfix.trans hinfix)
  have hplace : resolver.place root (.contentRoot (variant.toList ++ '/' :: rest.toList)) =
      join resolver.contentRoot (String.ofList (variant.toList ++ '/' :: rest.toList)) := rfl
  have htext : String.ofList (variant.toList ++ '/' :: rest.toList) = variant ++ "/" ++ rest := by
    rw [← toList_append_slash, String.ofList_toList]
  rw [Resolver.anchor_of_namesStore hmarker, Resolver.withoutAscent_eq_self hascent, hplace, htext,
    join_eq_normalize hroot]
  simp only [String.append_assoc]

/-- The page of a variant lies in the directory of the variant. -/
theorem liesIn_variant (upper variant : String) (hrest : ¬up <:+: rest.toList) :
    LiesIn (upper ++ "/" ++ variant) (normalize (upper ++ "/" ++ variant ++ "/" ++ rest)) := by
  have hdirectory : upper ++ "/" ++ variant ≠ "" := by simp
  rw [← join_eq_normalize hdirectory]
  exact liesIn_join hdirectory (staysBelow_of_up_notMem (up_notMem_pieces hrest) 0)

/-- **A path lies below one name of a directory only.** -/
theorem eq_of_liesIn_name (hupper : upper ≠ "") {name other : String} (hname : IsName name.toList)
    (hother : IsName other.toList) (h : LiesIn (upper ++ "/" ++ name) path) (h' : LiesIn (upper ++ "/" ++ other) path) :
    name = other := by
  have hprefix := h.2
  have hprefix' := h'.2
  rw [segments_append_name hupper hname] at hprefix
  rw [segments_append_name hupper hother] at hprefix'
  have hsame : (ofText upper.toList).segments ++ [name.toList] = (ofText upper.toList).segments ++ [other.toList] := by
    refine (List.prefix_of_prefix_length_le hprefix hprefix' ?_).eq_of_length ?_
    all_goals simp
  exact String.toList_inj.1 (by simpa using hsame)

/-! ### The pages of all variants -/

/-- **A reference with the multi-store macro** leads to one page for each storefront variant, in the order of the
variants and wherever the including page is. If no variant is listed twice, no page is. -/
theorem multiStore_resolve (hroot : normalize resolver.contentRoot = resolver.contentRoot)
    (hvariants : ∀ variant ∈ resolver.layout.storeVariants, IsStorefront resolver.layout variant)
    (hreference : IsMultiStoreReference resolver.layout reference rest) :
    (∀ root, resolver.resolve root reference = resolver.layout.storeVariants.map fun variant =>
      normalize (resolver.contentRoot ++ "/" ++ variant ++ "/" ++ rest)) ∧
    (resolver.layout.storeVariants.Nodup → ∀ root, (resolver.resolve root reference).Nodup) := by
  have hcontent : resolver.contentRoot ≠ "" := hroot ▸ normalize_ne_empty resolver.contentRoot
  have hresolve : ∀ root, resolver.resolve root reference = resolver.layout.storeVariants.map fun variant =>
      normalize (resolver.contentRoot ++ "/" ++ variant ++ "/" ++ rest) := by
    intro root
    have hmacro := (Resolver.afterMacro?_eq_some_iff hreference.token).2 hreference.first
    rw [Resolver.resolve, Resolver.candidates_eq_map hmacro, List.map_map]
    refine List.map_congr_left fun variant hvariant => ?_
    exact place_variant hcontent root (hvariants variant hvariant) hreference.noUp
  refine ⟨hresolve, fun hnodup root => ?_⟩
  rw [hresolve root]
  refine hnodup.map_on fun variant hvariant other hother hpage => ?_
  have hlies := liesIn_variant resolver.contentRoot variant hreference.noUp
  rw [hpage] at hlies
  exact eq_of_liesIn_name hcontent (hvariants variant hvariant).isName (hvariants other hother).isName hlies
    (liesIn_variant resolver.contentRoot other hreference.noUp)

/-- What stands behind the macro: the macro again, and the style macro. -/
def headerRest : String := "\\./$\x7bjspEsitesStoreDir\x7d/$\x7bStyleDir\x7d.jsp"

/-- In front of the macro there are a step upwards and a store. -/
def headerReference : String := " ../USBC/$\x7bjspEsitesStoreDir\x7d" ++ headerRest

theorem multiStore_resolve_header :
    (normalize "/r" = "/r" ∧ (∀ variant ∈ Layout.storeVariants {}, IsStorefront {} variant) ∧
      IsMultiStoreReference {} headerReference headerRest ∧ (Layout.storeVariants {}).Nodup) ∧
    (∀ root, (Resolver.mk "/r" {}).resolve root headerReference =
      (Layout.storeVariants {}).map fun variant => normalize ("/r" ++ "/" ++ variant ++ "/" ++ headerRest)) ∧
    (∀ root, ((Resolver.mk "/r" {}).resolve root headerReference).Nodup) ∧
    normalize ("/r" ++ "/" ++ "companyUSStorefrontAssetStore" ++ "/" ++ headerRest) =
      "/r/companyUSStorefrontAssetStore/$\x7bjspEsitesStoreDir\x7d/$\x7bStyleDir\x7d.jsp" := by
  have hroot : normalize "/r" = "/r" := by decide +kernel
  have hvariants : ∀ variant ∈ Layout.storeVariants {}, IsStorefront {} variant := by decide +kernel
  have hreference : IsMultiStoreReference {} headerReference headerRest := by decide +kernel
  have hnodup : (Layout.storeVariants {}).Nodup := by decide +kernel
  obtain ⟨hresolve, hpages⟩ := @multiStore_resolve (Resolver.mk "/r" {}) _ _ hroot hvariants hreference
  exact ⟨⟨hroot, hvariants, hreference, hnodup⟩, hresolve, hpages hnodup, by decide +kernel⟩

end PageGraph
