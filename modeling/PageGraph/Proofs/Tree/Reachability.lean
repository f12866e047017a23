import PageGraph.Proofs.Tree.Trails
import Mathlib.Logic.Relation

/-!
# Trees and reachability

Cutting cycles loses no page. Where a path is cut, the same path stands further up as an opened page, so
whatever can be reached through it is found there. The paths at the ends of trails are therefore closed under
inclusion, although each single trail is not.

Main statement: `Corpus.paths_below_root_eq_reached` : below the root of the tree of a path stand exactly the
paths that are reached from it.
-/

namespace PageGraph

namespace Corpus

variable {corpus : Corpus}

/-! ### Trails follow inclusions -/

theorem includes_of_mem_targets {page target : Page} (hpage : corpus.lookup page.path = some page)
    (htarget : target ∈ corpus.targets page) : corpus.Includes page.path target.path :=
  (includes_iff hpage).2 ⟨target, htarget, rfl⟩

namespace Trail

variable {root page : Page} {pages : List Page}

theorem reflTransGen (h : corpus.Trail root pages page) (hroot : corpus.lookup root.path = some root) :
    Relation.ReflTransGen corpus.Includes root.path page.path := by
  induction h with
  | root => exact .refl
  | step htrail htarget _ ih => exact ih.tail (includes_of_mem_targets (htrail.lookup hroot) htarget)

/-- All that lies above the end of a trail reaches it. -/
theorem reaches_of_mem (h : corpus.Trail root pages page) (hroot : corpus.lookup root.path = some root)
    {upper : Page} (hupper : upper ∈ pages) : corpus.Reaches upper.path page.path := by
  induction h with
  | root => cases hupper
  | @step above page target htrail htarget _ ih =>
    have hstep : corpus.Includes page.path target.path :=
      includes_of_mem_targets (htrail.lookup hroot) htarget
    rcases List.mem_append.1 hupper with hmem | hmem
    · exact (ih hmem).tail hstep
    · obtain rfl := List.mem_singleton.1 hmem
      exact .single hstep

/-- A target of an opened page is reached, whether it is opened in turn or cut. -/
theorem reaches_of_mem_targets {target : Page} (h : corpus.Trail root pages page)
    (hroot : corpus.lookup root.path = some root) (htarget : target ∈ corpus.targets page) :
    corpus.Reaches root.path target.path :=
  .tail' (h.reflTransGen hroot) (includes_of_mem_targets (h.lookup hroot) htarget)

/-- **The ends of trails are closed under inclusion:** a target that would be cut lies above, where it is the
end of a trail itself. -/
theorem exists_of_mem_targets {target : Page} (h : corpus.Trail root pages page)
    (htarget : target ∈ corpus.targets page) :
    ∃ above other, corpus.Trail root above other ∧ other.path = target.path := by
  by_cases hmem : target.path ∈ pages.map Page.path
  · obtain ⟨upper, hupper, hpath⟩ := List.mem_map.1 hmem
    obtain ⟨above, habove⟩ := h.exists_of_mem hupper
    exact ⟨above, upper, habove, hpath⟩
  · exact ⟨_, target, h.step htarget hmem, rfl⟩

end Trail

/-- Every path that can be reached is the end of a trail. -/
theorem exists_trail_of_reflTransGen {root : Page} (hroot : corpus.lookup root.path = some root)
    {path : String} (h : Relation.ReflTransGen corpus.Includes root.path path) :
    ∃ pages page, corpus.Trail root pages page ∧ page.path = path := by
  induction h with
  | refl => exact ⟨[], root, .root, rfl⟩
  | tail _ hstep ih =>
    obtain ⟨pages, page, htrail, rfl⟩ := ih
    obtain ⟨target, htarget, rfl⟩ := (includes_iff (htrail.lookup hroot)).1 hstep
    exact htrail.exists_of_mem_targets htarget

/-! ### Below the root -/

theorem reaches_of_mem_flatten {root : Page} (hroot : corpus.lookup root.path = some root)
    {occurrence : Occurrence} (h : occurrence ∈ (corpus.tree root).flatten.drop 1) :
    corpus.Reaches root.path occurrence.path := by
  obtain ⟨above, sub, hoccurs, habove, rfl⟩ := Tree.mem_flatten_drop_one_iff.1 h
  rcases occurs_tree_iff.1 hoccurs with ⟨pages, page, htrail, rfl, rfl⟩ |
    ⟨pages, page, target, htrail, htarget, -, -, rfl⟩
  · cases htrail with
    | root => exact absurd ladder_nil habove
    | step htrail htarget _ => exact htrail.reaches_of_mem_targets hroot htarget
  · exact htrail.reaches_of_mem_targets hroot htarget

theorem exists_mem_flatten_of_reaches {root : Page} (hroot : corpus.lookup root.path = some root)
    {path : String} (h : corpus.Reaches root.path path) :
    ∃ occurrence ∈ (corpus.tree root).flatten.drop 1, occurrence.path = path := by
  obtain ⟨before, hbefore, hstep⟩ := Relation.TransGen.tail'_iff.1 h
  obtain ⟨pages, page, htrail, rfl⟩ := exists_trail_of_reflTransGen hroot hbefore
  obtain ⟨target, htarget, rfl⟩ := (includes_iff (htrail.lookup hroot)).1 hstep
  have hchild : corpus.child (pages.map Page.path) page target ∈
      (corpus.opened (pages.map Page.path) page).nested :=
    (mem_nested_opened corpus).2 ⟨target, htarget, rfl⟩
  have hoccurs := (occurs_opened htrail).child hchild
  refine ⟨_, Tree.mem_flatten_drop_one_iff.2 ⟨_, _, hoccurs, by simp, rfl⟩, ?_⟩
  -- opened or cut, it has the path of its target
  rw [child]
  split <;> rfl

/-- **Cutting cycles loses no page:** below the root of the tree of a path stand exactly the paths of the corpus
that are reached from it by one or more inclusions. -/
theorem paths_below_root_eq_reached {path : String} (hpath : path ∈ corpus.paths) :
    ∃ tree, corpus.tree? path = some tree ∧ ∀ other,
      (∃ occurrence ∈ tree.flatten.drop 1, occurrence.path = other) ↔
        other ∈ corpus.paths ∧ corpus.Reaches path other := by
  obtain ⟨root, hlookup⟩ := mem_paths_iff_exists_lookup.1 hpath
  obtain rfl := (lookup_eq_some hlookup).2
  refine ⟨corpus.tree root, congrArg (Option.map corpus.tree) hlookup, fun other => ?_⟩
  constructor
  · rintro ⟨occurrence, hmem, rfl⟩
    have hreaches := reaches_of_mem_flatten hlookup hmem
    exact ⟨hreaches.mem_paths, hreaches⟩
  · rintro ⟨-, hreaches⟩
    exact exists_mem_flatten_of_reaches hlookup hreaches

theorem paths_below_root_eq_reached_tangled :
    "/a" ∈ tangled.paths ∧ ∃ tree, tangled.tree? "/a" = some tree ∧ ∀ other,
      (∃ occurrence ∈ tree.flatten.drop 1, occurrence.path = other) ↔
        other ∈ tangled.paths ∧ tangled.Reaches "/a" other :=
  ⟨by decide, paths_below_root_eq_reached (by decide)⟩

end Corpus

end PageGraph
