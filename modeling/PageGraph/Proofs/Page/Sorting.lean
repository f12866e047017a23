import PageGraph.Proofs.Page.Inclusion
import PageGraph.Tree.Expansion
import PageGraph.Tree.Summary
import Mathlib.Data.List.Basic

/-!
# The order of a corpus

Pages are sorted by their paths only, by a comparison that tells any two paths apart. So the order of the
records can be seen in a corpus only where a path comes twice, and there it is kept.

* `Page.comparePaths` is a linear comparison: the instances say so;
* `Page.sort_perm`, `Page.pairwise_sort` : sorting keeps the pages and puts them in order;
* `Page.filter_sort` : the pages with a path keep their order;
* `Page.sort_eq_of_perm` : where no path comes twice all orders of the pages are sorted into the same;
* `Corpus.ofSources` : the corpus of records and their texts.

Main statement: `Corpus.record_order_immaterial`.
-/

namespace PageGraph

namespace Page

/-! ### The comparison -/

theorem comparePaths_eq_compareLex :
    comparePaths = compareLex (compareOn fun path => Text.lower path.toList) (compareOn String.toList) := rfl

instance : Std.TransCmp comparePaths := by
  rw [comparePaths_eq_compareLex]
  infer_instance

theorem comparePaths_self (path : String) : comparePaths path path = .eq := Std.ReflCmp.compare_self

theorem comparePaths_swap (a b : String) : comparePaths a b = (comparePaths b a).swap :=
  Std.OrientedCmp.eq_swap

/-- The comparison tells any two paths apart, also those that differ in letter case only. -/
theorem eq_of_comparePaths_eq {a b : String} (h : comparePaths a b = .eq) : a = b := by
  rw [comparePaths, Ordering.then_eq_eq] at h
  exact String.toList_injective (Std.LawfulEqOrd.eq_of_compare h.2)

/-- Letter case decides only where the paths are the same otherwise. -/
example : comparePaths "/w/A.jsp" "/w/a.jsp" = .lt ∧ comparePaths "/w/B.jsp" "/w/a.jsp" = .gt := by
  decide +kernel

/-- Whether a page may stand before another. -/
def mayPrecede (a b : Page) : Bool := (comparePaths a.path b.path).isLE

theorem mayPrecede_trans (a b c : Page) (hab : mayPrecede a b = true) (hbc : mayPrecede b c = true) :
    mayPrecede a c = true :=
  Std.TransCmp.isLE_trans hab hbc

theorem mayPrecede_total (a b : Page) : (mayPrecede a b || mayPrecede b a) = true := by
  rw [mayPrecede, mayPrecede, comparePaths_swap b.path]
  cases comparePaths a.path b.path <;> rfl

/-- Pages with one path may stand in any order. -/
theorem mayPrecede_of_path_eq {a b : Page} (h : a.path = b.path) : mayPrecede a b = true := by
  rw [mayPrecede, h, comparePaths_self]
  rfl

/-- Pages that may each stand before the other have one path. -/
theorem path_eq_of_mayPrecede {a b : Page} (hab : mayPrecede a b = true) (hba : mayPrecede b a = true) :
    a.path = b.path := by
  refine eq_of_comparePaths_eq ?_
  rw [mayPrecede, comparePaths_swap] at hba
  rw [mayPrecede] at hab
  cases h : comparePaths a.path b.path with
  | lt => rw [h] at hba; cases hba
  | eq => rfl
  | gt => rw [h] at hab; cases hab

/-! ### Sorting -/

/-- Sorting loses no page and adds none. -/
theorem sort_perm (pages : List Page) : (sort pages).Perm pages := List.mergeSort_perm pages mayPrecede

theorem pairwise_sort (pages : List Page) : (sort pages).Pairwise (mayPrecede · · = true) :=
  List.pairwise_mergeSort mayPrecede_trans mayPrecede_total pages

/-- **Sorting keeps the order** of the pages with one path. -/
theorem filter_sort (pages : List Page) (path : String) :
    (sort pages).filter (·.path = path) = pages.filter (·.path = path) := by
  have hsame : (pages.filter (·.path = path)).Pairwise (mayPrecede · · = true) := by
    refine List.pairwise_of_forall_mem_list fun a ha b hb => mayPrecede_of_path_eq ?_
    rw [of_decide_eq_true (List.mem_filter.1 ha).2, of_decide_eq_true (List.mem_filter.1 hb).2]
  have hsublist : (pages.filter (·.path = path)).Sublist (sort pages) :=
    List.sublist_mergeSort mayPrecede_trans mayPrecede_total hsame List.filter_sublist
  -- so they stand in the sorted list in this order, and there are no more of them there
  have hfilter := hsublist.filter (·.path = path)
  rw [List.filter_filter] at hfilter
  simp only [Bool.and_self] at hfilter
  have hlength := ((sort_perm pages).filter (·.path = path)).length_eq
  exact (hfilter.eq_of_length hlength.symm).symm

/-- **The order before sorting does not count** where no path comes twice. -/
theorem sort_eq_of_perm {pages others : List Page} (hnodup : (pages.map Page.path).Nodup)
    (h : pages.Perm others) : sort pages = sort others := by
  have hperm : (sort pages).Perm (sort others) :=
    (sort_perm pages).trans (h.trans (sort_perm others).symm)
  refine hperm.eq_of_pairwise ?_ (pairwise_sort pages) (pairwise_sort others)
  intro a b ha hb hab hba
  have ha' : a ∈ pages := (sort_perm pages).mem_iff.1 ha
  have hb' : b ∈ pages := h.mem_iff.2 ((sort_perm others).mem_iff.1 hb)
  exact List.inj_on_of_nodup_map hnodup ha' hb' (path_eq_of_mayPrecede hab hba)

end Page

namespace Corpus

/-- What is looked up in the sorted pages is looked up in the pages as they are. -/
theorem lookup_sort (pages : List Page) (path : String) :
    lookup (Page.sort pages) path = lookup pages path := by
  rw [lookup_eq_head?_filter, Page.filter_sort, ← lookup_eq_head?_filter]

end Corpus

/-! ### Records and their texts -/

/-- A record with the text of its page. -/
abbrev Source := Record × String

/-- The path of the page that a source is for. -/
def Source.path (source : Source) : String := normalize source.1.path

/-- The page that a source is for. -/
def Source.page (resolver : Resolver) (source : Source) : Page := Page.build resolver source.1 source.2

namespace Corpus

/-- The corpus of some sources. -/
def ofSources (resolver : Resolver) (sources : List Source) : Corpus :=
  Page.sort (sources.map (Source.page resolver))

theorem map_path_page (resolver : Resolver) (sources : List Source) :
    (sources.map (Source.page resolver)).map Page.path = sources.map Source.path := by
  rw [List.map_map]
  rfl

theorem ofSources_eq_of_perm (resolver : Resolver) {sources others : List Source}
    (hnodup : (sources.map Source.path).Nodup) (h : sources.Perm others) :
    ofSources resolver sources = ofSources resolver others := by
  rw [← map_path_page resolver] at hnodup
  exact Page.sort_eq_of_perm hnodup (h.map (Source.page resolver))

/-- The page that a path names is built from the first source with this path. -/
theorem lookup_ofSources (resolver : Resolver) (sources : List Source) (path : String) :
    (ofSources resolver sources).lookup path =
      (sources.find? fun source => source.path = path).map (Source.page resolver) := by
  rw [ofSources, lookup_sort, lookup, List.find?_map]
  rfl

/-- **The order of the records is immaterial.** Where no two records have one path in normal form, all orders of
them give the same corpus, trees and totals. Where some have, there still is one page for each record, pages with
one path stand in the order of their records, and the first of them is looked up. -/
theorem record_order_immaterial (resolver : Resolver) (sources : List Source) :
    ((sources.map Source.path).Nodup → ∀ others, sources.Perm others →
      ofSources resolver sources = ofSources resolver others ∧
      (ofSources resolver sources).trees = (ofSources resolver others).trees ∧
      Summary.of (ofSources resolver sources) (ofSources resolver sources).trees =
        Summary.of (ofSources resolver others) (ofSources resolver others).trees) ∧
    (ofSources resolver sources).Pairwise (fun a b => (Page.comparePaths a.path b.path).isLE = true) ∧
    (ofSources resolver sources).Perm (sources.map (Source.page resolver)) ∧
    (∀ path, (ofSources resolver sources).filter (·.path = path) =
      (sources.map (Source.page resolver)).filter (·.path = path)) ∧
    ∀ path, (ofSources resolver sources).lookup path =
      (sources.find? fun source => source.path = path).map (Source.page resolver) := by
  refine ⟨fun hnodup others hperm => ?_, Page.pairwise_sort _, Page.sort_perm _, Page.filter_sort _,
    lookup_ofSources resolver sources⟩
  have hcorpus := ofSources_eq_of_perm resolver hnodup hperm
  exact ⟨hcorpus, congrArg trees hcorpus, congrArg (fun corpus => Summary.of corpus (trees corpus)) hcorpus⟩

/-- Three records, two of them with paths that differ in letter case only, and one not in normal form. -/
def threeSources : List Source :=
  [({ path := "/w/b.jsp", root := "/w", name := "b.jsp" }, "<jsp:include page=\"A.jsp\"/>"),
    ({ path := "/w/x/../A.jsp", root := "/w", name := "A.jsp" }, ""),
    ({ path := "/w/a.jsp", root := "/w", name := "a.jsp" }, "")]

theorem record_order_immaterial_threeSources :
    ((threeSources.map Source.path).Nodup ∧ threeSources.Perm threeSources.reverse) ∧
    ofSources (.below "/w" {}) threeSources = ofSources (.below "/w" {}) threeSources.reverse := by
  have hnodup : (threeSources.map Source.path).Nodup := by decide +kernel
  have hperm : threeSources.Perm threeSources.reverse := (List.reverse_perm threeSources).symm
  exact ⟨⟨hnodup, hperm⟩, ((record_order_immaterial _ threeSources).1 hnodup _ hperm).1⟩

end Corpus

end PageGraph
