import PageGraph.Page
import PageGraph.Tree.Basic

/-!
# Expanding pages into trees

A page is expanded by replacing each of its references by the first page with that path, together with what
that page includes in turn. References that name no page of the corpus are left out.

Expansion follows a chain of pages from the root. A reference to a page that lies strictly above the page
being expanded ends there as a circular occurrence. The page being expanded does not count, so a page that
includes itself is shown once more below itself before the cycle is cut.

The recursion ends because of `budget`: opening a page that is not above yet takes a page from those that are
left, counted twice, and the one step that does not (a page below itself) is taken at most once between two
such steps (`budget_lt`). `expandFrom_eq` states the expansion as one equation, without the recursion over
the references.
-/

namespace PageGraph

namespace Corpus

variable (corpus : Corpus)

/-- An occurrence of a page. -/
def occurrence (page : Page) (parent : Option String) (depth : Nat) : Occurrence where
  name := page.name
  path := page.path
  parent := parent
  depth := depth

/-- The occurrence of `target` below `includer` that closes a cycle through the pages `above`. -/
def circularOccurrence (above : List String) (includer target : Page) : Occurrence :=
  { occurrence target (some includer.path) (above.length + 1) with
    rawNested := some target.references
    circular := some ⟨above.idxOf target.path, ⟨includer.path, above.length⟩⟩ }

/-- Bounds how far a page below the pages `above` can be expanded: two for each page of the corpus that is not
above, and one when the page itself is not among those. -/
def budget (above : List String) (page : Page) : Nat :=
  2 * corpus.countP (fun other => other.path ∉ above) +
    (if page.path ∈ above ∨ ∀ other ∈ corpus, other.path ≠ page.path then 1 else 0)

theorem countP_not_above_concat_le (above : List String) (path : String) :
    corpus.countP (fun other => other.path ∉ above ++ [path]) ≤
      corpus.countP (fun other => other.path ∉ above) :=
  List.countP_mono_left fun other _ h => by
    simp only [List.mem_append, decide_eq_true_eq, not_or] at h ⊢
    exact h.1

/-- Below a page of the corpus that is not above yet fewer pages are left. -/
theorem countP_not_above_concat_lt {above : List String} {other : Page} (hother : other ∈ corpus)
    (hnew : other.path ∉ above) :
    corpus.countP (fun page => page.path ∉ above ++ [other.path]) <
      corpus.countP (fun page => page.path ∉ above) := by
  induction corpus with
  | nil => cases hother
  | cons first rest ih =>
    have hrest := countP_not_above_concat_le rest above other.path
    rw [List.countP_cons, List.countP_cons]
    rcases List.mem_cons.1 hother with rfl | hother
    · rw [if_neg (by simp), if_pos (by simpa using hnew)]
      omega
    · have hlt := ih hother
      by_cases hfirst : first.path ∈ above
      · rw [if_neg (by simp [hfirst]), if_neg (by simp [hfirst])]
        omega
      · rw [if_pos (show decide (first.path ∉ above) = true by simpa using hfirst)]
        split <;> omega

theorem budget_lt {above : List String} {page target : Page} (hmem : target ∈ corpus)
    (hnew : target.path ∉ above) :
    corpus.budget (above ++ [page.path]) target < corpus.budget above page := by
  unfold budget
  by_cases hout : page.path ∈ above ∨ ∀ other ∈ corpus, other.path ≠ page.path
  · -- `page` is not among the pages that are left, and `target` is
    have hne : target.path ≠ page.path := by
      intro heq
      rcases hout with habove | hcorpus
      · exact hnew (heq ▸ habove)
      · exact hcorpus target hmem heq
    have hin : ¬(target.path ∈ above ++ [page.path] ∨
        ∀ other ∈ corpus, other.path ≠ target.path) := by
      rintro (h | h)
      · rcases List.mem_append.1 h with h | h
        · exact hnew h
        · exact hne (List.mem_singleton.1 h)
      · exact h target hmem rfl
    have hle := corpus.countP_not_above_concat_le above page.path
    rw [if_pos hout, if_neg hin]
    omega
  · obtain ⟨other, hother, hpath⟩ : ∃ other ∈ corpus, other.path = page.path :=
      Classical.byContradiction fun h =>
        hout (Or.inr fun other hother hpath => h ⟨other, hother, hpath⟩)
    have hlt := corpus.countP_not_above_concat_lt hother (hpath ▸ fun h => hout (Or.inl h))
    rw [hpath] at hlt
    rw [if_neg hout]
    split <;> omega

/-- The trees of the given references of `page`, which stands below the pages `above`. -/
def expandFrom (above : List String) (page : Page) (references : List String) : List Tree :=
  match references with
  | [] => []
  | reference :: rest =>
    match _h : corpus.lookup reference with
    | none => expandFrom above page rest
    | some target =>
      if _hc : target.path ∈ above then
        .node (circularOccurrence above page target) [] :: expandFrom above page rest
      else
        .node (occurrence target (some page.path) (above.length + 1))
            (expandFrom (above ++ [page.path]) target target.references) ::
          expandFrom above page rest
termination_by (corpus.budget above page, references.length)
decreasing_by
  · exact Prod.Lex.right _ (Nat.lt_succ_self _)
  · exact Prod.Lex.right _ (Nat.lt_succ_self _)
  · exact Prod.Lex.left _ _ (corpus.budget_lt (lookup_eq_some _h).1 _hc)
  · exact Prod.Lex.right _ (Nat.lt_succ_self _)

/-- The tree of `target` below `page`, which stands below the pages `above`. -/
def child (above : List String) (page target : Page) : Tree :=
  if target.path ∈ above then .node (circularOccurrence above page target) []
  else
    .node (occurrence target (some page.path) (above.length + 1))
      (corpus.expandFrom (above ++ [page.path]) target target.references)

/-- **The expansion as an equation:** each reference that names a page becomes the tree of that page. -/
theorem expandFrom_eq (above : List String) (page : Page) (references : List String) :
    corpus.expandFrom above page references =
      references.filterMap fun reference => (corpus.lookup reference).map (corpus.child above page) := by
  induction references with
  | nil => rw [expandFrom, List.filterMap_nil]
  | cons reference rest ih =>
    rw [expandFrom, List.filterMap_cons]
    split
    · next h => rw [h, ih, Option.map_none]
    · next target h =>
      rw [h, Option.map_some, ← ih, child]
      split <;> rfl

/-- The tree of a page. -/
def tree (page : Page) : Tree :=
  .node (occurrence page none 0) (corpus.expandFrom [] page page.references)

/-- The trees of all pages, in the order of the corpus. -/
def trees : List Tree := corpus.map corpus.tree

/-- The tree of the page with a path. -/
def tree? (path : String) : Option Tree := (corpus.lookup path).map corpus.tree

end Corpus

end PageGraph
