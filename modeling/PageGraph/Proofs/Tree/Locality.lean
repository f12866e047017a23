import PageGraph.Proofs.Tree.Reachability
import Mathlib.Data.List.Basic
import Mathlib.Data.List.Nodup
import Mathlib.Logic.Relation

/-!
# What a tree depends on

The tree of a path is made from the pages that the path reaches, and of each of them it shows the name, the path
and the references. A reference that names no page is left out, so it counts as well whether a page is there for
each path that these pages mention. Nothing else of a corpus has a part in the tree.

* `Corpus.Mentions` : a page that is reached references a path, which may name no page;
* `Corpus.AgreesWith` : two corpora show the same for a path, or both have no page for it;
* `Corpus.opened_eq_of_agreesWith` : the two expansions are the same, below all paths;

Main statement: `Corpus.tree_depends_on_mentioned`, with what follows for pages that are put in another order,
added again, placed elsewhere or added anew.
-/

namespace PageGraph

/-- What trees show of a page: its name, path and references. -/
def Page.shown (page : Page) : String × String × List String := (page.name, page.path, page.references)

theorem Page.shown_eq_iff {a b : Page} :
    a.shown = b.shown ↔ a.name = b.name ∧ a.path = b.path ∧ a.references = b.references := by
  simp only [shown, Prod.mk.injEq]

namespace Corpus

variable (corpus : Corpus)

/-- A page that `path` names or reaches has the reference `other`. -/
def Mentions (path other : String) : Prop :=
  ∃ reached page, Relation.ReflTransGen corpus.Includes path reached ∧
    corpus.lookup reached = some page ∧ other ∈ page.references

/-- The first pages with a path in two corpora show the same, or there is none in both. -/
def AgreesWith (other : Corpus) (path : String) : Prop :=
  (corpus.lookup path).map Page.shown = (other.lookup path).map Page.shown

variable {corpus} {other : Corpus}

/-! ### Mentioned paths -/

theorem mentions_of_mem_references {page : Page} (hpage : corpus.lookup page.path = some page)
    {reference : String} (h : reference ∈ page.references) : corpus.Mentions page.path reference :=
  ⟨page.path, page, .refl, hpage, h⟩

theorem Mentions.head {path next mentioned : String} (hstep : corpus.Includes path next)
    (h : corpus.Mentions next mentioned) : corpus.Mentions path mentioned := by
  obtain ⟨reached, page, hreached, hlookup, hmem⟩ := h
  exact ⟨reached, page, hreached.head hstep, hlookup, hmem⟩

theorem Mentions.exists_mem_references {path mentioned : String} (h : corpus.Mentions path mentioned) :
    ∃ page ∈ corpus, mentioned ∈ page.references := by
  obtain ⟨reached, page, -, hlookup, hmem⟩ := h
  exact ⟨page, (lookup_eq_some hlookup).1, hmem⟩

/-! ### Two expansions -/

theorem AgreesWith.of_lookup_eq {path : String} (h : other.lookup path = corpus.lookup path) :
    corpus.AgreesWith other path := by
  rw [AgreesWith, h]

theorem AgreesWith.cases {path : String} (h : corpus.AgreesWith other path) :
    (corpus.lookup path = none ∧ other.lookup path = none) ∨
      ∃ page page', corpus.lookup path = some page ∧ other.lookup path = some page' ∧
        page.shown = page'.shown := by
  cases hlookup : corpus.lookup path with
  | none =>
    rw [AgreesWith, hlookup, Option.map_none, eq_comm, Option.map_eq_none_iff] at h
    exact Or.inl ⟨rfl, h⟩
  | some page =>
    rw [AgreesWith, hlookup, Option.map_some, eq_comm, Option.map_eq_some_iff] at h
    obtain ⟨page', hlookup', hshown⟩ := h
    exact Or.inr ⟨page, page', rfl, hlookup', hshown.symm⟩

theorem cut_congr {above : List String} {page page' target target' : Page}
    (hpage : page.shown = page'.shown) (htarget : target.shown = target'.shown) :
    cut above page target = cut above page' target' := by
  obtain ⟨-, hpath, -⟩ := Page.shown_eq_iff.1 hpage
  obtain ⟨hname', hpath', hreferences'⟩ := Page.shown_eq_iff.1 htarget
  simp only [cut, circularOccurrence, occurrence, hpath, hname', hpath', hreferences']

/-- Targets that show the same are cut in both corpora or in none. -/
theorem child_congr {above : List String} {page page' target target' : Page}
    (hpage : page.shown = page'.shown) (htarget : target.shown = target'.shown)
    (hopened : target.path ∉ above →
      corpus.opened (above ++ [page.path]) target = other.opened (above ++ [page.path]) target') :
    corpus.child above page target = other.child above page' target' := by
  obtain ⟨-, hpath, -⟩ := Page.shown_eq_iff.1 hpage
  obtain ⟨-, hpath', -⟩ := Page.shown_eq_iff.1 htarget
  by_cases habove : target.path ∈ above
  · rw [child_of_mem corpus habove, child_of_mem other (hpath' ▸ habove)]
    exact cut_congr hpage htarget
  · rw [child_of_not_mem corpus habove, child_of_not_mem other (hpath' ▸ habove), ← hpath]
    exact hopened habove

/-- **Two expansions are the same** if the corpora agree on all that is mentioned from the page. -/
theorem opened_eq_of_agreesWith (above : List String) (page : Page)
    (hpage : corpus.lookup page.path = some page)
    (hagrees : ∀ mentioned, corpus.Mentions page.path mentioned → corpus.AgreesWith other mentioned)
    (page' : Page) (hsame : page.shown = page'.shown) :
    corpus.opened above page = other.opened above page' := by
  induction above, page using opened_induct generalizing page' with
  | step above page ih =>
    obtain ⟨hname, hpath, hreferences⟩ := Page.shown_eq_iff.1 hsame
    have hnested : corpus.expandFrom above page page.references =
        other.expandFrom above page' page'.references := by
      rw [expandFrom_eq, expandFrom_eq, ← hreferences]
      refine List.filterMap_congr fun reference hreference => ?_
      rcases (hagrees reference (mentions_of_mem_references hpage hreference)).cases with
        ⟨hnone, hnone'⟩ | ⟨target, target', htarget, htarget', hshown⟩
      · rw [hnone, hnone', Option.map_none, Option.map_none]
      · have hmem : target ∈ corpus.targets page := List.mem_filterMap.2 ⟨reference, hreference, htarget⟩
        -- what is mentioned from the target is mentioned from the page
        have hagrees' : ∀ mentioned, corpus.Mentions target.path mentioned →
            corpus.AgreesWith other mentioned :=
          fun mentioned hmentioned =>
            hagrees mentioned (hmentioned.head (includes_of_mem_targets hpage hmem))
        rw [htarget, htarget', Option.map_some, Option.map_some, child_congr hsame hshown fun habove =>
          ih target hmem habove (lookup_of_mem_targets hmem) hagrees' target' hshown]
    rw [opened, opened, hnested]
    simp only [occurrence, hname, hpath]

theorem tree?_eq_of_agreesWith {root : Page} (hroot : corpus.lookup root.path = some root)
    (h : corpus.AgreesWith other root.path)
    (hagrees : ∀ mentioned, corpus.Mentions root.path mentioned → corpus.AgreesWith other mentioned) :
    other.tree? root.path = some (corpus.tree root) := by
  rcases h.cases with ⟨hnone, -⟩ | ⟨page, root', hlookup, hlookup', hshown⟩
  · rw [hroot] at hnone
    cases hnone
  · obtain rfl := Option.some.inj (hroot.symm.trans hlookup)
    rw [tree?_of_lookup other hlookup', tree_eq_opened, tree_eq_opened,
      opened_eq_of_agreesWith [] root hroot hagrees root' hshown]

/-! ### Changes that agree -/

/-- Where no path comes twice all orders of the pages look up the same. -/
theorem lookup_eq_of_perm (hnodup : corpus.paths.Nodup) (h : corpus.Perm other) (path : String) :
    other.lookup path = corpus.lookup path := by
  have hpaths : corpus.paths.Perm other.paths := h.map Page.path
  by_cases hpath : path ∈ other.paths
  · obtain ⟨page, hpage, rfl⟩ := exists_lookup_path hpath
    have hmem : page ∈ corpus := h.mem_iff.2 (lookup_eq_some hpage).1
    rw [hpage, lookup_path_of_nodup hnodup hmem]
  · rw [lookup_eq_none hpath, lookup_eq_none fun hmem => hpath (hpaths.mem_iff.1 hmem)]

/-- Pages that come again behind the others are not looked up. -/
theorem lookup_append_of_forall_mem {extra : List Page} (h : ∀ page ∈ extra, page.path ∈ corpus.paths)
    (path : String) : lookup (corpus ++ extra) path = corpus.lookup path := by
  have happend : lookup (corpus ++ extra) path = (corpus.lookup path).or (lookup extra path) :=
    List.find?_append
  by_cases hpath : path ∈ corpus.paths
  · obtain ⟨page, hpage⟩ := mem_paths_iff_exists_lookup.1 hpath
    rw [happend, hpage, Option.some_or]
  · have hextra : path ∉ paths extra := by
      intro hmem
      obtain ⟨page, hpage, rfl⟩ := List.mem_map.1 hmem
      exact hpath (h page hpage)
    rw [happend, lookup_eq_none hpath, lookup_eq_none hextra, Option.or_none]

/-- Corpora whose pages show the same, one by one, agree on every path. -/
theorem agreesWith_of_map_shown_eq (h : corpus.map Page.shown = other.map Page.shown) (path : String) :
    corpus.AgreesWith other path := by
  have hfind : ∀ pages : Corpus, (pages.lookup path).map Page.shown =
      (pages.map Page.shown).find? fun shown => shown.2.1 = path := by
    intro pages
    rw [List.find?_map]
    rfl
  rw [AgreesWith, hfind, hfind, h]

/-- Pages that are put in anywhere are not looked up by the paths that they do not have. -/
theorem lookup_eq_of_sublist {extra : List Page} (hsublist : corpus.Sublist other)
    (hperm : other.Perm (corpus ++ extra)) {path : String} (hpath : ∀ page ∈ extra, page.path ≠ path) :
    other.lookup path = corpus.lookup path := by
  have hextra : extra.filter (·.path = path) = [] := by
    rw [List.filter_eq_nil_iff]
    intro page hpage
    simpa using hpath page hpage
  have hlength := (hperm.filter (·.path = path)).length_eq
  rw [List.filter_append, hextra, List.append_nil] at hlength
  have hfilter := (hsublist.filter (·.path = path)).eq_of_length hlength.symm
  rw [lookup_eq_head?_filter, lookup_eq_head?_filter, hfilter]

/-- **A tree depends on what is mentioned from its path** and on nothing else of the corpus. So it stays the
same when pages with different paths come in another order, when pages with known paths are added at the end,
when parents and depths of pages change, and when pages are added anywhere that have no mentioned path. An added
page may have the path of the tree itself where nothing mentions it, but then it must not stand in front of the page
that has it, since the path names the first of them. -/
theorem tree_depends_on_mentioned {path : String} (hpath : path ∈ corpus.paths) :
    ∃ tree, corpus.tree? path = some tree ∧
      (∀ other : Corpus, corpus.AgreesWith other path →
        (∀ mentioned, corpus.Mentions path mentioned → corpus.AgreesWith other mentioned) →
        other.tree? path = some tree) ∧
      (corpus.paths.Nodup → ∀ other : Corpus, corpus.Perm other → other.tree? path = some tree) ∧
      (∀ extra : List Page, (∀ page ∈ extra, page.path ∈ corpus.paths) →
        tree? (corpus ++ extra) path = some tree) ∧
      (∀ other : Corpus, corpus.map Page.shown = other.map Page.shown → other.tree? path = some tree) ∧
      (∀ (other : Corpus) (extra : List Page), corpus.Sublist other → other.Perm (corpus ++ extra) →
        (∀ page ∈ extra, ¬ corpus.Mentions path page.path) → other.lookup path = corpus.lookup path →
        other.tree? path = some tree) := by
  obtain ⟨root, hroot, rfl⟩ := exists_lookup_path hpath
  have hsame : ∀ other : Corpus, (∀ path, corpus.AgreesWith other path) →
      other.tree? root.path = some (corpus.tree root) :=
    fun other h => tree?_eq_of_agreesWith hroot (h root.path) fun mentioned _ => h mentioned
  refine ⟨corpus.tree root, tree?_of_lookup corpus hroot,
    fun other => tree?_eq_of_agreesWith hroot, ?_, ?_, ?_, ?_⟩
  · intro hnodup other hperm
    exact hsame other fun path => .of_lookup_eq (lookup_eq_of_perm hnodup hperm path)
  · intro extra hextra
    exact hsame _ fun path => .of_lookup_eq (lookup_append_of_forall_mem hextra path)
  · intro other hshown
    exact hsame other (agreesWith_of_map_shown_eq hshown)
  · intro other extra hsublist hperm hextra hlookup
    refine tree?_eq_of_agreesWith hroot (.of_lookup_eq hlookup) fun mentioned hmentioned => ?_
    refine .of_lookup_eq (lookup_eq_of_sublist hsublist hperm fun page hpage heq => ?_)
    exact hextra page hpage (heq ▸ hmentioned)

/-- A corpus that agrees with `entwined` on what is mentioned from `/a`: without `/c`, and with other pages. -/
def elsewhere : Corpus := [pageD, pageA, { pageB with depth := 7 }, otherPageA]

theorem agreesWith_elsewhere (mentioned : String) (h : entwined.Mentions "/a" mentioned) :
    entwined.AgreesWith elsewhere mentioned := by
  obtain ⟨page, hpage, hmem⟩ := h.exists_mem_references
  have hall : ∀ page ∈ entwined, ∀ reference ∈ page.references,
      (entwined.lookup reference).map Page.shown = (elsewhere.lookup reference).map Page.shown := by decide
  exact hall page hpage mentioned hmem

theorem not_mentions_d : ¬ entwined.Mentions "/a" "/d" := by
  intro h
  obtain ⟨page, hpage, hmem⟩ := h.exists_mem_references
  have hnone : ∀ page ∈ entwined, "/d" ∉ page.references := by decide
  exact hnone page hpage hmem

theorem tree_depends_on_mentioned_entwined :
    ("/a" ∈ entwined.paths ∧ entwined.AgreesWith elsewhere "/a" ∧
      (∀ mentioned, entwined.Mentions "/a" mentioned → entwined.AgreesWith elsewhere mentioned) ∧
      entwined.paths.Nodup ∧ entwined.Perm entwined.reverse ∧ otherPageA.path ∈ entwined.paths ∧
      ¬ entwined.Mentions "/a" pageD.path) ∧
    ∃ tree, entwined.tree? "/a" = some tree ∧ elsewhere.tree? "/a" = some tree ∧
      tree? entwined.reverse "/a" = some tree ∧ tree? (entwined ++ [otherPageA]) "/a" = some tree ∧
      tree? (entwined.map fun page => { page with parent := some "/d", depth := 1 }) "/a" = some tree ∧
      tree? (pageD :: entwined) "/a" = some tree := by
  have hpath : "/a" ∈ entwined.paths := by decide
  have hagrees : entwined.AgreesWith elsewhere "/a" := rfl
  have hnodup : entwined.paths.Nodup := by decide
  have hperm : entwined.Perm entwined.reverse := (List.reverse_perm entwined).symm
  have hknown : ∀ page ∈ [otherPageA], page.path ∈ entwined.paths := by decide
  have hadded : (pageD :: entwined).Perm (entwined ++ [pageD]) :=
    (List.perm_append_singleton pageD entwined).symm
  have hunmentioned : ∀ page ∈ [pageD], ¬ entwined.Mentions "/a" page.path := by
    intro page hpage
    obtain rfl := List.mem_singleton.1 hpage
    exact not_mentions_d
  obtain ⟨tree, htree, hother, hreordered, hrepeated, hplaced, hextended⟩ := tree_depends_on_mentioned hpath
  exact ⟨⟨hpath, hagrees, agreesWith_elsewhere, hnodup, hperm, by decide, not_mentions_d⟩,
    tree, htree, hother elsewhere hagrees agreesWith_elsewhere, hreordered hnodup _ hperm,
    hrepeated _ hknown, hplaced _ rfl,
    hextended _ [pageD] (List.sublist_cons_self _ _) hadded hunmentioned rfl⟩

end Corpus

end PageGraph
