import PageGraph.Proofs.PagePath.Joining
import PageGraph.Proofs.Reference.Rules

/-!
# References into the store of the page

The store macro stands for the store of the including page. The store is read off the page directory: it is the segment
after the first one that is spelled like the content-root marker. For a page in a store of the content root this is that
store as long as the path of the content root holds the marker only at its end. Where it holds the marker before, the
store is looked for too early, and all pages below the content root get one and the same.

* `InStore` : a page directory lies in a store of the content root;
* `storeOf_of_inStore` : the store that is found there, if the marker only ends the content root;
* `storeOf_of_marker_above` : the store that is found if it occurs before;
* `storeMacro_resolve` : where a reference with the store macro leads;
* `storeMacro_leaves` : it may lead out of the store of the page.
-/

namespace PageGraph

open PagePath

/-- A page directory lies in a known store of the content root: it is that of the store or below it. -/
structure InStore (layout : Layout) (contentRoot store root : String) : Prop where
  rooted : isRooted contentRoot.toList = true
  known : store ∈ layout.knownStoreDirs
  isName : IsName store.toList
  normal : normalize root = root
  liesIn : LiesIn (contentRoot ++ "/" ++ store) root

/-- A reference is the store macro and `rest` behind it, and it holds nothing that comes before that macro in the order
of the rules. -/
structure IsStoreReference (layout : Layout) (reference rest : String) : Prop where
  token : layout.storeDirToken ≠ ""
  text : Text.trim reference.toList = layout.storeDirToken.toList ++ rest.toList
  noMarker : ¬∃ marker ∈ layout.crossStoreMarkers, marker ≠ "" ∧ marker.toList <:+: Text.trim reference.toList
  noMultiStore : Text.occursIn layout.multiStoreToken.toList (Text.trim reference.toList) = false
  noStyle : Text.occursIn layout.styleDirToken.toList (Text.trim reference.toList) = false

instance (layout : Layout) (contentRoot store root : String) : Decidable (InStore layout contentRoot store root) :=
  decidable_of_iff (isRooted contentRoot.toList = true ∧ store ∈ layout.knownStoreDirs ∧ IsName store.toList ∧
      normalize root = root ∧ LiesIn (contentRoot ++ "/" ++ store) root)
    ⟨fun ⟨hrooted, hknown, hname, hnormal, hlies⟩ => ⟨hrooted, hknown, hname, hnormal, hlies⟩,
      fun h => ⟨h.rooted, h.known, h.isName, h.normal, h.liesIn⟩⟩

instance (layout : Layout) (reference rest : String) : Decidable (IsStoreReference layout reference rest) :=
  decidable_of_iff (layout.storeDirToken ≠ "" ∧
      Text.trim reference.toList = layout.storeDirToken.toList ++ rest.toList ∧
      (¬∃ marker ∈ layout.crossStoreMarkers, marker ≠ "" ∧ marker.toList <:+: Text.trim reference.toList) ∧
      Text.occursIn layout.multiStoreToken.toList (Text.trim reference.toList) = false ∧
      Text.occursIn layout.styleDirToken.toList (Text.trim reference.toList) = false)
    ⟨fun ⟨htoken, htext, hmarker, hmulti, hstyle⟩ => ⟨htoken, htext, hmarker, hmulti, hstyle⟩,
      fun h => ⟨h.token, h.text, h.noMarker, h.noMultiStore, h.noStyle⟩⟩

variable {layout : Layout} {contentRoot store root reference rest : String} {above : List Segment}

/-! ### The store that is found -/

/-- The store is the segment after the first marker of a directory, if it is known. -/
theorem Resolver.storeOf_of_segments (resolver : Resolver) {above below : List Segment} {candidate : Segment}
    (hnormal : normalize root = root) (hrooted : isRooted root.toList = true)
    (hsegments : (ofText root.toList).segments =
      above ++ resolver.layout.contentRootMarker.toList :: candidate :: below)
    (habove : resolver.layout.contentRootMarker.toList ∉ above) :
    resolver.storeOf root =
      if resolver.layout.knownStoreDirs.any (·.toList = candidate) then String.ofList candidate
      else resolver.layout.defaultStoreDir := by
  have hpath := isNormal_ofText root.toList
  have hne : (ofText root.toList).segments ≠ [] := by simp [hsegments]
  have hmarker : resolver.layout.contentRootMarker.toList ≠ [] := hpath.nonempty (by simp [hsegments])
  have hpieces : pieces (root.toList.reverse.dropWhile (· = '/')).reverse =
      ([] :: above) ++ resolver.layout.contentRootMarker.toList :: candidate :: below := by
    rw [toList_eq_toText hnormal, hpath.reverse_dropWhile_slash hrooted hne, hpath.pieces_toText hrooted hne, hsegments,
      List.cons_append]
  have hpassed : ∀ segment ∈ [] :: above, decide (segment ≠ resolver.layout.contentRootMarker.toList) = true := by
    intro segment hsegment
    rw [decide_eq_true_eq]
    rintro rfl
    rcases List.mem_cons.1 hsegment with hempty | hmem
    · exact hmarker hempty
    · exact habove hmem
  rw [storeOf, hpieces, List.dropWhile_append_of_pos hpassed, List.dropWhile_cons_of_neg (by simp)]

theorem InStore.isRooted_root (h : InStore layout contentRoot store root) : isRooted root.toList = true := by
  have hrooted := isRooted_append_slash (ne_empty_of_isRooted h.rooted) store
  rw [h.rooted] at hrooted
  exact h.liesIn.1.symm.trans hrooted

/-- The segments of a page directory: those of the content root, then the store. -/
theorem InStore.exists_segments (h : InStore layout contentRoot store root) :
    ∃ lower, (ofText root.toList).segments = (ofText contentRoot.toList).segments ++ store.toList :: lower := by
  obtain ⟨lower, hlower⟩ := h.liesIn.2
  refine ⟨lower, ?_⟩
  rw [← hlower, segments_append_name (ne_empty_of_isRooted h.rooted) h.isName, List.append_assoc, List.singleton_append]

/-- **The store of the page is found** if the content root holds the marker only at its end. -/
theorem storeOf_of_inStore (h : InStore layout contentRoot store root)
    (hmarker : (ofText contentRoot.toList).segments = above ++ [layout.contentRootMarker.toList])
    (habove : layout.contentRootMarker.toList ∉ above) : (Resolver.below contentRoot layout).storeOf root = store := by
  obtain ⟨lower, hlower⟩ := h.exists_segments
  rw [hmarker, List.append_assoc, List.singleton_append] at hlower
  have hknown : layout.knownStoreDirs.any (·.toList = store.toList) = true :=
    List.any_eq_true.2 ⟨store, h.known, decide_eq_true rfl⟩
  rw [Resolver.storeOf_of_segments (Resolver.below contentRoot layout) h.normal h.isRooted_root hlower habove]
  exact (if_pos hknown).trans String.ofList_toList

/-- **One store for all pages** is found if the content root holds the marker before its end. -/
theorem storeOf_of_marker_above (h : InStore layout contentRoot store root)
    (hmarker : (ofText contentRoot.toList).segments = above ++ [layout.contentRootMarker.toList])
    (habove : layout.contentRootMarker.toList ∈ above) :
    (Resolver.below contentRoot layout).storeOf root =
      (Resolver.below contentRoot layout).storeOf (normalize contentRoot) := by
  obtain ⟨lower, hlower⟩ := h.exists_segments
  obtain ⟨before, after, rfl, hbefore⟩ := List.eq_append_cons_of_mem habove
  -- the segment after the first marker is in the content root already
  obtain ⟨candidate, rest, hrest⟩ : ∃ candidate rest, after ++ [layout.contentRootMarker.toList] = candidate :: rest :=
    List.exists_cons_of_ne_nil (by simp)
  have hcontent : (ofText (normalize contentRoot).toList).segments =
      before ++ layout.contentRootMarker.toList :: candidate :: rest := by
    rw [ofText_normalize, hmarker, List.append_assoc, List.cons_append, hrest]
  have hroot : (ofText root.toList).segments =
      before ++ layout.contentRootMarker.toList :: candidate :: (rest ++ store.toList :: lower) := by
    rw [hlower, hmarker, List.append_assoc _ [_] _, List.append_assoc, List.cons_append, ← List.append_assoc after, hrest]
    rfl
  rw [Resolver.storeOf_of_segments (Resolver.below contentRoot layout) h.normal h.isRooted_root hroot hbefore,
    Resolver.storeOf_of_segments (Resolver.below contentRoot layout) (normalize_normalize contentRoot)
      ((isRooted_normalize _).trans h.rooted) hcontent hbefore]

/-! ### Where the reference leads -/

/-- A reference with the store macro leads below the store that is found for the page. -/
theorem IsStoreReference.resolve_eq (h : IsStoreReference layout reference rest)
    (hcontent : isRooted contentRoot.toList = true) (root : String) :
    (Resolver.below contentRoot layout).resolve root reference =
      [normalize (contentRoot ++ "/" ++ (Resolver.below contentRoot layout).storeOf root ++ "/" ++ rest)] := by
  have hnoMarker : layout.namesStore (Text.trim reference.toList) = false :=
    Bool.eq_false_iff.2 (mt Text.anyOccursIn_iff.1 h.noMarker)
  have hcandidates : (Resolver.below contentRoot layout).candidates (Text.trim reference.toList) =
      [Text.trim reference.toList] := Resolver.candidates_eq_singleton h.noMultiStore
  have hstore : Resolver.afterMacro? layout.storeDirToken (Text.trim reference.toList) = some rest.toList := by
    rw [h.text, Resolver.afterMacro?_append h.token]
  have hanchor : (Resolver.below contentRoot layout).anchor (Text.trim reference.toList) = .storeDir rest.toList :=
    Resolver.anchor_of_storeMacro hnoMarker h.noStyle hstore
  have hbelow : contentRoot ++ "/" ++ (Resolver.below contentRoot layout).storeOf root ≠ "" := by simp
  have hplace : (Resolver.below contentRoot layout).place root (.storeDir rest.toList) =
      join (join (normalize contentRoot) ((Resolver.below contentRoot layout).storeOf root))
        (String.ofList rest.toList) := rfl
  have hdirectory : join (normalize contentRoot) ((Resolver.below contentRoot layout).storeOf root) =
      normalize (contentRoot ++ "/" ++ (Resolver.below contentRoot layout).storeOf root) := by
    rw [join_eq_normalize (normalize_ne_empty contentRoot), normalize_append_slash (ne_empty_of_isRooted hcontent)]
  rw [Resolver.resolve, hcandidates, List.map_singleton, hanchor, hplace, hdirectory, String.ofList_toList]
  rw [join_eq_normalize (normalize_ne_empty _), normalize_append_slash hbelow]

/-- **A reference with the store macro leads into the store of the page** if the content root holds the marker only at
its end; if it holds it before, the reference leads into the store that is read off the content root itself, whichever
store the page lies in. -/
theorem storeMacro_resolve (hstore : InStore layout contentRoot store root)
    (hreference : IsStoreReference layout reference rest)
    (hmarker : (ofText contentRoot.toList).segments = above ++ [layout.contentRootMarker.toList]) :
    (layout.contentRootMarker.toList ∉ above →
      (Resolver.below contentRoot layout).resolve root reference =
        [normalize (contentRoot ++ "/" ++ store ++ "/" ++ rest)]) ∧
    (layout.contentRootMarker.toList ∈ above →
      (Resolver.below contentRoot layout).resolve root reference =
        [normalize (contentRoot ++ "/" ++ (Resolver.below contentRoot layout).storeOf (normalize contentRoot) ++ "/" ++
          rest)]) := by
  have hresolve := hreference.resolve_eq hstore.rooted root
  refine ⟨fun habove => ?_, fun habove => ?_⟩
  · rw [hresolve, storeOf_of_inStore hstore hmarker habove]
  · rw [hresolve, storeOf_of_marker_above hstore hmarker habove]

/-- In a store below a directory with the name of another store, and in one below a content root that holds the marker
before. -/
theorem storeMacro_resolve_stores :
    (InStore {} "/USBC/repo/WebContent" "CABC" "/USBC/repo/WebContent/CABC/WebContent/USBC" ∧
      InStore {} "/WebContent/USBC/WebContent" "CABC" "/WebContent/USBC/WebContent/CABC" ∧
      IsStoreReference {} " $\x7bjspStoreDir\x7d\\..\\x/./a.jsp" "\\..\\x/./a.jsp") ∧
    (Resolver.below "/USBC/repo/WebContent" {}).resolve "/USBC/repo/WebContent/CABC/WebContent/USBC"
      " $\x7bjspStoreDir\x7d\\..\\x/./a.jsp" =
        [normalize ("/USBC/repo/WebContent" ++ "/" ++ "CABC" ++ "/" ++ "\\..\\x/./a.jsp")] ∧
    (Resolver.below "/WebContent/USBC/WebContent" {}).resolve "/WebContent/USBC/WebContent/CABC"
      " $\x7bjspStoreDir\x7d\\..\\x/./a.jsp" =
        [normalize ("/WebContent/USBC/WebContent" ++ "/" ++
          (Resolver.below "/WebContent/USBC/WebContent" {}).storeOf (normalize "/WebContent/USBC/WebContent") ++ "/" ++
          "\\..\\x/./a.jsp")] := by
  have hreference : IsStoreReference {} " $\x7bjspStoreDir\x7d\\..\\x/./a.jsp" "\\..\\x/./a.jsp" := by
    decide +kernel
  have hlast : InStore {} "/USBC/repo/WebContent" "CABC" "/USBC/repo/WebContent/CABC/WebContent/USBC" := by
    decide +kernel
  have hsegments : (ofText "/USBC/repo/WebContent".toList).segments =
      ["USBC".toList, "repo".toList] ++ [(Layout.contentRootMarker {}).toList] := by decide +kernel
  have habove : InStore {} "/WebContent/USBC/WebContent" "CABC" "/WebContent/USBC/WebContent/CABC" := by
    decide +kernel
  have hsegments' : (ofText "/WebContent/USBC/WebContent".toList).segments =
      ["WebContent".toList, "USBC".toList] ++ [(Layout.contentRootMarker {}).toList] := by decide +kernel
  exact ⟨⟨hlast, habove, hreference⟩, (storeMacro_resolve hlast hreference hsegments).1 (by decide +kernel),
    (storeMacro_resolve habove hreference hsegments').2 (by decide +kernel)⟩

/-- **With the marker before the end of the content root** a page may be taken to lie in another store than it does. -/
theorem storeMacro_leaves :
    (InStore {} "/WebContent/repo/WebContent" "USBC" "/WebContent/repo/WebContent/USBC" ∧
      IsStoreReference {} "$\x7bjspStoreDir\x7d/a.jsp" "/a.jsp" ∧
      normalize "/WebContent/repo/WebContent" = "/WebContent/repo/WebContent" ∧
      (ofText "/WebContent/repo/WebContent".toList).segments.getLast? = some (Layout.contentRootMarker {}).toList) ∧
    (Resolver.below "/WebContent/repo/WebContent" {}).resolve "/WebContent/repo/WebContent/USBC"
      "$\x7bjspStoreDir\x7d/a.jsp" ≠ [normalize ("/WebContent/repo/WebContent" ++ "/" ++ "USBC" ++ "/" ++ "/a.jsp")] := by
  have hstore : InStore {} "/WebContent/repo/WebContent" "USBC" "/WebContent/repo/WebContent/USBC" := by
    decide +kernel
  have hreference : IsStoreReference {} "$\x7bjspStoreDir\x7d/a.jsp" "/a.jsp" := by
    decide +kernel
  exact ⟨⟨hstore, hreference, by decide +kernel, by decide +kernel⟩, by decide +kernel⟩

end PageGraph
