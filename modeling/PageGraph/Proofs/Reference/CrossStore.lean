import PageGraph.Proofs.PagePath.Ways
import PageGraph.Proofs.Reference.Rules

/-!
# References into another store

A reference that holds a cross-store marker is placed below the content root, by what follows its last step upwards.
Whether it then stays there is a question about what is left: a step upwards ends with a slash where it is looked for,
with either separator where segments are put together, so some steps may be left.

* `resolve_crossStore` : such a reference names one page, the rest of it joined to the content root;
* `crossStore_liesIn` : the page lies in the content root if the rest never climbs, and otherwise exactly if the rest
  names again what it climbs out of;
* `steps_withoutAscent` : the rest of a reference without backslashes that does not end with `..` never climbs;
* `crossStore_leaves` : with backslashes the page may lie elsewhere.
-/

namespace PageGraph.Resolver

open PagePath

variable {text : List Char} {contentRoot root reference : String} {layout : Layout}

/-! ### What is left of a reference -/

theorem withoutAscent_suffix (text : List Char) : withoutAscent text <:+ text := by
  rw [withoutAscent]
  split
  · next before rest hsplit =>
    exact ⟨before ++ ['.', '.', '/'], (Text.splitAtLast?_eq_some hsplit).symm⟩
  · exact List.suffix_rfl

theorem not_ascent_infix_withoutAscent (text : List Char) : ¬['.', '.', '/'] <:+: withoutAscent text := by
  intro hinfix
  have hoccurs : Text.occursIn ['.', '.', '/'] (withoutAscent text) = true :=
    Text.occursIn_iff.2 ⟨List.cons_ne_nil _ _, hinfix⟩
  rw [withoutAscent] at hoccurs
  split at hoccurs
  · next hsplit =>
    rw [Text.occursIn_of_splitAtLast?_eq_some hsplit] at hoccurs
    cases hoccurs
  · next hsplit =>
    rw [← Text.isSome_splitAtLast?, hsplit] at hoccurs
    cases hoccurs

/-- A reference without steps upwards is left as it is. -/
theorem withoutAscent_eq_self (h : ¬['.', '.', '/'] <:+: text) : withoutAscent text = text := by
  have hoccurs : Text.occursIn ['.', '.', '/'] text = false := Text.occursIn_eq_false_iff.2 fun _ => h
  rw [← Text.isSome_splitAtLast?, Option.isSome_eq_false_iff, Option.isNone_iff_eq_none] at hoccurs
  rw [withoutAscent, hoccurs]

/-- **Without backslashes and without `..` at the end**, nothing climbs in what is left of a reference. -/
theorem steps_withoutAscent (hslash : '\\' ∉ text) (hend : ¬up <:+ text) :
    (Way.of (pieces (withoutAscent text))).steps = 0 := by
  have hsuffix := withoutAscent_suffix text
  refine staysBelow_iff.1 (staysBelow_of_up_notMem (fun hup => ?_) 0)
  obtain ⟨before, after, htext, hafter⟩ := exists_of_mem_splitOnP hup
  rcases hafter with rfl | ⟨separator, rest, rfl, hseparator⟩
  · rw [List.append_nil] at htext
    exact hend (List.IsSuffix.trans ⟨before, htext.symm⟩ hsuffix)
  · -- the separator after the step upwards is a slash, so the step would have been taken off
    have hmem : separator ∈ withoutAscent text := by
      rw [htext]
      exact List.mem_append_right _ (List.mem_append_right _ List.mem_cons_self)
    have hsep : separator = '/' := by
      rw [isSeparator, Bool.or_eq_true, decide_eq_true_eq, decide_eq_true_eq] at hseparator
      rcases hseparator with hsep | hsep
      · exact hsep
      · exact absurd (hsuffix.mem (hsep ▸ hmem)) hslash
    subst hsep
    refine not_ascent_infix_withoutAscent text ⟨before, rest, ?_⟩
    rw [htext, List.append_assoc]
    rfl

/-! ### Where the page lies -/

/-- A reference with a cross-store marker names one page, joined to the content root. -/
theorem resolve_crossStore (root : String)
    (hmulti : Text.occursIn layout.multiStoreToken.toList (Text.trim reference.toList) = false)
    (hmarker : layout.namesStore (Text.trim reference.toList) = true) :
    (below contentRoot layout).resolve root reference =
      [join (normalize contentRoot) (String.ofList (withoutAscent (Text.trim reference.toList)))] := by
  have hcandidates : (below contentRoot layout).candidates (Text.trim reference.toList) = [Text.trim reference.toList] :=
    candidates_eq_singleton hmulti
  have hanchor : (below contentRoot layout).anchor (Text.trim reference.toList) =
      .contentRoot (withoutAscent (Text.trim reference.toList)) := anchor_of_namesStore hmarker
  rw [resolve, hcandidates, List.map_singleton, hanchor]
  rfl

/-- **When a reference into another store stays in the content root.** It does if what follows its last `../` does not
climb. If that climbs, where the content root is on a drive, or starts at the root and no drive follows, it does exactly
if the names that it climbs out of are named again. -/
theorem crossStore_liesIn (contentRoot root : String)
    (hmulti : Text.occursIn layout.multiStoreToken.toList (Text.trim reference.toList) = false)
    (hmarker : ∃ marker ∈ layout.crossStoreMarkers, marker ≠ "" ∧ marker.toList <:+: Text.trim reference.toList) :
    let rest := pieces (withoutAscent (Text.trim reference.toList))
    ∃ path, (below contentRoot layout).resolve root reference = [path] ∧
      ((Way.of rest).steps = 0 → LiesIn (normalize contentRoot) path) ∧
      ((ofText contentRoot.toList).Bounds rest → (LiesIn (normalize contentRoot) path ↔
        (ofText contentRoot.toList).removable.take (Way.of rest).steps <:+ (Way.of rest).names)) := by
  intro rest
  refine ⟨_, resolve_crossStore root hmulti (Text.anyOccursIn_iff.2 hmarker), fun hsteps => ?_, fun hbounds => ?_⟩
  · refine liesIn_join (normalize_ne_empty contentRoot) ?_
    rw [String.toList_ofList]
    exact staysBelow_iff.2 hsteps
  · have hrest : pieces (String.ofList (withoutAscent (Text.trim reference.toList))).toList = rest := by
      rw [String.toList_ofList]
    rw [← ofText_normalize, ← hrest] at hbounds ⊢
    exact liesIn_join_iff (normalize_ne_empty contentRoot) hbounds

/-- From two directories further down, with a `..` left that only goes back over a name, and with two left that climb
out of the content root and into it again. -/
theorem crossStore_liesIn_mixed :
    (∃ path, (below "/repo/Stores/WebContent" {}).resolve "/repo/Stores/WebContent/Misc" "../..\\../USBC/a\\..\\x.jsp" =
      [path] ∧ LiesIn (normalize "/repo/Stores/WebContent") path) ∧
    ∃ path, (below "/repo/Stores/WebContent" {}).resolve "/repo/Stores/WebContent/Misc"
      "..\\..\\Stores\\WebContent\\USBC\\x.jsp" = [path] ∧ LiesIn (normalize "/repo/Stores/WebContent") path := by
  obtain ⟨path, hpath, hlies, -⟩ := @crossStore_liesIn "../..\\../USBC/a\\..\\x.jsp" {} "/repo/Stores/WebContent"
    "/repo/Stores/WebContent/Misc" (by decide +kernel)
    ⟨"USBC", by decide +kernel, by decide +kernel, by decide +kernel⟩
  obtain ⟨path', hpath', -, hlies'⟩ := @crossStore_liesIn "..\\..\\Stores\\WebContent\\USBC\\x.jsp" {}
    "/repo/Stores/WebContent" "/repo/Stores/WebContent/Misc" (by decide +kernel)
    ⟨"USBC", by decide +kernel, by decide +kernel, by decide +kernel⟩
  exact ⟨⟨path, hpath, hlies (by decide +kernel)⟩, path', hpath', (hlies' (by decide +kernel)).2 (by decide +kernel)⟩

/-- **With backslashes** the steps upwards are not taken off, and the page lies outside of the content root. -/
theorem crossStore_leaves :
    (Text.occursIn (Layout.multiStoreToken {}).toList (Text.trim "..\\..\\USBC\\x.jsp".toList) = false ∧
      ∃ marker ∈ Layout.crossStoreMarkers {}, marker ≠ "" ∧ marker.toList <:+: Text.trim "..\\..\\USBC\\x.jsp".toList) ∧
    ¬∃ path, (below "/repo/Stores/WebContent" {}).resolve "/repo/Stores/WebContent/Misc" "..\\..\\USBC\\x.jsp" =
      [path] ∧ LiesIn (normalize "/repo/Stores/WebContent") path := by
  refine ⟨⟨by decide +kernel, "USBC", by decide +kernel, by decide +kernel, by decide +kernel⟩, ?_⟩
  rintro ⟨path, hpath, hlies⟩
  have hresolve : (below "/repo/Stores/WebContent" {}).resolve "/repo/Stores/WebContent/Misc" "..\\..\\USBC\\x.jsp" =
      ["/repo/USBC/x.jsp"] := by decide +kernel
  rw [hresolve, List.cons.injEq] at hpath
  rw [← hpath.1] at hlies
  revert hlies
  decide +kernel

end PageGraph.Resolver
