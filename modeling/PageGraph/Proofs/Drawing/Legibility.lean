import PageGraph.Proofs.Drawing.Alike
import PageGraph.Proofs.Tree.Trails
import Mathlib.Data.List.Basic
import Mathlib.Data.List.Forall2
import Mathlib.Data.Nat.Notation

/-!
# Reading a drawing

The plain drawing of a tree shows of each occurrence its path and, where it ends a cycle, the depth at which its page came
first. All of this can be read off the drawing again, and so can the shape of the tree:

* a branch takes four characters for each level and none of them is a slash, with which the path starts, so a line tells
  its level (`Line.length_branchText`);
* a remark ends with a bracket, with which no path ends, and the numeral is all that stands between the last blank and that
  bracket, so a label tells its path and its mark (`Line.drawn_eq_of_label_eq`);
* the lines below an occurrence are those that follow up to the next one of its level or of a higher one, so the levels in
  their order tell the shape (`Tree.forall₂_drawnAlike`).

Main statement: `Corpus.drawnAlike_tree_of_draw_eq`.
-/

namespace PageGraph

/-- A path that can be told from what stands before it and behind it on its line. -/
structure Legible (path : String) : Prop where
  slash : path.toList.head? = some '/'
  newline : '\n' ∉ path.toList
  bracket : path.toList.getLast? ≠ some ')'

instance (path : String) : Decidable (Legible path) :=
  decidable_of_iff (path.toList.head? = some '/' ∧ '\n' ∉ path.toList ∧ path.toList.getLast? ≠ some ')')
    ⟨fun ⟨slash, newline, bracket⟩ => ⟨slash, newline, bracket⟩, fun ⟨slash, newline, bracket⟩ => ⟨slash, newline, bracket⟩⟩

namespace Line

/-- What a line shows: its level, and what is drawn of its occurrence. -/
def shown (line : Line) : ℕ × String × Option ℕ := (line.branch.length, line.occurrence.drawn)

/-! ### Branches -/

theorem length_branchText (branch : List Bool) : (branchText branch).length = 4 * branch.length := by
  have hstem : ∀ last, (stem last).length = 4 := by decide
  have hconnector : ∀ last, (connector last).length = 4 := by decide
  fun_induction branchText branch with
  | case1 => rfl
  | case2 last => exact hconnector last
  | case3 last rest _ ih =>
    rw [List.length_append, hstem, ih, List.length_cons]
    omega

theorem ne_slash_of_mem_branchText {branch : List Bool} {c : Char} (h : c ∈ branchText branch) : c ≠ '/' := by
  have hstem : ∀ last, '/' ∉ stem last := by decide
  have hconnector : ∀ last, '/' ∉ connector last := by decide
  rintro rfl
  fun_induction branchText branch with
  | case1 => cases h
  | case2 last => exact hconnector last h
  | case3 last rest _ ih =>
    rcases List.mem_append.1 h with h | h
    · exact hstem last h
    · exact ih h

/-! ### Labels -/

/-- Before the numeral of a remark stands a blank, and behind it a bracket. -/
theorem remark_eq (mark : CycleMark) : remark mark =
    "(circular, first included at depth".toList ++ ' ' :: Text.Decimal.digits mark.firstIncludedDepth ++ [')'] := by
  have hwords : "(circular, first included at depth ".toList = "(circular, first included at depth".toList ++ [' '] := by
    decide +kernel
  unfold remark
  simp only [hwords, List.append_assoc, List.cons_append, List.nil_append]

theorem label_of_not_circular {occurrence : Occurrence} (h : occurrence.circular = none) :
    label false occurrence = occurrence.path.toList := by
  simp [label, h]

theorem label_of_circular {occurrence : Occurrence} {mark : CycleMark} (h : occurrence.circular = some mark) :
    label false occurrence = occurrence.path.toList ++ ' ' :: remark mark := by
  simp [label, h, Colour.paintedIf]

theorem getLast?_append_remark (path : List Char) (mark : CycleMark) : (path ++ ' ' :: remark mark).getLast? = some ')' := by
  rw [remark_eq, ← List.cons_append, ← List.append_assoc, List.getLast?_concat]

/-- A path and a remark behind it are told apart from the end: the numeral goes back to the first blank. -/
theorem append_remark_inj {path other : List Char} {mark otherMark : CycleMark}
    (h : path ++ ' ' :: remark mark = other ++ ' ' :: remark otherMark) :
    path = other ∧ mark.firstIncludedDepth = otherMark.firstIncludedDepth := by
  rw [remark_eq, remark_eq] at h
  generalize "(circular, first included at depth".toList = words at h
  have hreverse := congrArg List.reverse h
  simp only [List.reverse_append, List.reverse_cons, List.reverse_nil, List.nil_append, List.append_assoc,
    List.cons_append, List.cons.injEq, true_and] at hreverse
  have hdigits : ∀ n : ℕ, ∀ c ∈ (Text.Decimal.digits n).reverse, c.isDigit = true := by
    intro n c hc
    exact Text.Decimal.isDigit_of_mem_digits (List.mem_reverse.1 hc)
  obtain ⟨hnumeral, -, hrest⟩ :=
    append_cons_inj_of_forall (hdigits _) (by decide) (hdigits _) (by decide) hreverse
  constructor
  · exact List.reverse_inj.1 (List.cons.inj (List.append_cancel_left hrest)).2
  · rw [← Text.Decimal.value_digits mark.firstIncludedDepth, List.reverse_inj.1 hnumeral, Text.Decimal.value_digits]

/-- A label tells what is drawn of its occurrence. -/
theorem drawn_eq_of_label_eq {occurrence other : Occurrence} (hlegible : Legible occurrence.path)
    (hother : Legible other.path) (h : label false occurrence = label false other) : occurrence.drawn = other.drawn := by
  cases hmark : occurrence.circular with
  | none =>
    cases hotherMark : other.circular with
    | none =>
      rw [label_of_not_circular hmark, label_of_not_circular hotherMark, String.toList_inj] at h
      simp [Occurrence.drawn, hmark, hotherMark, h]
    | some otherMark =>
      rw [label_of_not_circular hmark, label_of_circular hotherMark] at h
      exact absurd (h ▸ getLast?_append_remark _ _) hlegible.bracket
  | some mark =>
    cases hotherMark : other.circular with
    | none =>
      rw [label_of_circular hmark, label_of_not_circular hotherMark] at h
      exact absurd (h ▸ getLast?_append_remark _ _) hother.bracket
    | some otherMark =>
      rw [label_of_circular hmark, label_of_circular hotherMark] at h
      obtain ⟨hpath, hdepth⟩ := append_remark_inj h
      simp [Occurrence.drawn, hmark, hotherMark, String.toList_inj.1 hpath, hdepth]

/-! ### Lines -/

theorem exists_label_eq_cons {occurrence : Occurrence} (h : Legible occurrence.path) :
    ∃ rest, label false occurrence = '/' :: rest := by
  obtain ⟨rest, hpath⟩ := List.head?_eq_some_iff.1 h.slash
  cases hmark : occurrence.circular with
  | none => exact ⟨rest, by rw [label_of_not_circular hmark, hpath]⟩
  | some mark => exact ⟨rest ++ ' ' :: remark mark, by rw [label_of_circular hmark, hpath, List.cons_append]⟩

theorem toText_of_branch_ne_nil {line : Line} (h : line.branch ≠ []) (coloured : Bool) :
    line.toText coloured = branchText line.branch ++ label coloured line.occurrence := by
  unfold toText
  split
  · next hnil => exact absurd hnil h
  · rfl

/-- A line below the root tells its level and what is drawn of its occurrence. -/
theorem shown_eq_of_toText_eq {line other : Line} (hline : line.branch ≠ []) (hother : other.branch ≠ [])
    (hpath : Legible line.occurrence.path) (hotherPath : Legible other.occurrence.path)
    (h : line.toText false = other.toText false) : line.shown = other.shown := by
  rw [toText_of_branch_ne_nil hline, toText_of_branch_ne_nil hother] at h
  obtain ⟨rest, hlabel⟩ := exists_label_eq_cons hpath
  obtain ⟨behind, hotherLabel⟩ := exists_label_eq_cons hotherPath
  -- both branches end before the first slash
  have hbefore : ∀ branch, ∀ c ∈ branchText branch, (c != '/') = true := by
    intro branch c hc
    simpa using ne_slash_of_mem_branchText hc
  rw [hlabel, hotherLabel] at h
  obtain ⟨hbranch, -, hrest⟩ :=
    append_cons_inj_of_forall (hbefore _) (by decide) (hbefore _) (by decide) h
  have hlevel : 4 * line.branch.length = 4 * other.branch.length := by
    rw [← length_branchText, ← length_branchText, hbranch]
  have hdrawn : line.occurrence.drawn = other.occurrence.drawn := by
    apply drawn_eq_of_label_eq hpath hotherPath
    rw [hlabel, hotherLabel, hrest]
  rw [shown, shown, hdrawn, Nat.eq_of_mul_eq_mul_left (by decide) hlevel]

end Line

namespace Tree

/-! ### Levels -/

/-- No line of a tree stands on a higher level than its root. -/
theorem length_le_of_mem_linesFrom {branch : List Bool} {tree : Tree} {line : Line}
    (h : line ∈ linesFrom none branch tree) : branch.length ≤ line.branch.length := by
  induction tree using Tree.induct generalizing branch with
  | node root nested ih =>
    rw [linesFrom_none_node] at h
    rcases List.mem_cons.1 h with rfl | h
    · exact Nat.le_refl _
    · obtain ⟨child, hchild, last, hline⟩ := exists_of_mem_linesBelow h
      have hle := ih child hchild hline
      rw [List.length_append] at hle
      exact Nat.le_of_add_right_le hle

theorem length_lt_of_mem_linesBelow {branch : List Bool} {trees : List Tree} {line : Line}
    (h : line ∈ linesBelow none branch trees) : branch.length < line.branch.length := by
  obtain ⟨tree, -, last, hline⟩ := exists_of_mem_linesBelow h
  have hle := length_le_of_mem_linesFrom hline
  rwa [List.length_append] at hle

/-- Trees that follow each other begin on the level below their branch. -/
theorem level_of_mem_head? {branch : List Bool} {trees : List Tree} {shown : ℕ × String × Option ℕ}
    (h : shown ∈ ((linesBelow none branch trees).map Line.shown).head?) : shown.1 = branch.length + 1 := by
  cases trees with
  | nil => cases h
  | cons tree trees =>
    obtain ⟨root, nested⟩ := tree
    rw [linesBelow, linesFrom_none_node] at h
    obtain rfl := Option.some.inj h
    exact List.length_append

/-- **Where a tree ends:** the lines of a tree are told from those of the trees that follow it, by their levels. -/
theorem shown_append_inj {branch other own otherOwn : List Bool} {tree otherTree : Tree} {trees others : List Tree}
    (hlevel : branch.length = other.length) (hown : own.length = branch.length + 1)
    (hotherOwn : otherOwn.length = other.length + 1)
    (h : (linesFrom none own tree ++ linesBelow none branch trees).map Line.shown =
      (linesFrom none otherOwn otherTree ++ linesBelow none other others).map Line.shown) :
    (linesFrom none own tree).map Line.shown = (linesFrom none otherOwn otherTree).map Line.shown ∧
      (linesBelow none branch trees).map Line.shown = (linesBelow none other others).map Line.shown := by
  obtain ⟨root, nested⟩ := tree
  obtain ⟨otherRoot, otherNested⟩ := otherTree
  rw [linesFrom_none_node, linesFrom_none_node, List.cons_append, List.cons_append, List.map_cons, List.map_cons,
    List.map_append, List.map_append] at h
  obtain ⟨hroot, hbelow⟩ := List.cons.inj h
  -- what stands below a root is deeper than the root, and what follows begins on the level of the root
  have hdeeper : ∀ (b : List Bool) (ts : List Tree), b.length = own.length →
      ∀ shown ∈ (linesBelow none b ts).map Line.shown, decide (own.length < shown.1) = true := by
    intro b ts hb shown hshown
    obtain ⟨line, hline, rfl⟩ := List.mem_map.1 hshown
    have hlt := length_lt_of_mem_linesBelow hline
    rw [hb] at hlt
    exact decide_eq_true hlt
  have hfollows : ∀ (b : List Bool) (ts : List Tree), b.length + 1 = own.length →
      ∀ shown ∈ ((linesBelow none b ts).map Line.shown).head?, decide (own.length < shown.1) = false := by
    intro b ts hb shown hshown
    simp [level_of_mem_head? hshown, hb]
  obtain ⟨hnested, hrest⟩ := append_inj_of_forall (hdeeper _ _ rfl) (hfollows _ _ hown.symm)
    (hdeeper _ _ (by omega)) (hfollows _ _ (by omega)) hbelow
  rw [linesFrom_none_node, linesFrom_none_node, List.map_cons, List.map_cons, hroot, hnested]
  exact ⟨rfl, hrest⟩

/-- Trees that follow each other are read one after the other. -/
theorem forall₂_drawnAlike {trees : List Tree}
    (h : ∀ tree ∈ trees, ∀ (own otherOwn : List Bool) (other : Tree), own.length = otherOwn.length →
      (linesFrom none own tree).map Line.shown = (linesFrom none otherOwn other).map Line.shown → tree.DrawnAlike other)
    {branch other : List Bool} (hlevel : branch.length = other.length) {others : List Tree}
    (heq : (linesBelow none branch trees).map Line.shown = (linesBelow none other others).map Line.shown) :
    List.Forall₂ DrawnAlike trees others := by
  induction trees generalizing others with
  | nil =>
    cases others with
    | nil => exact .nil
    | cons otherTree others =>
      obtain ⟨root, nested⟩ := otherTree
      simp [linesBelow, linesFrom_none_node] at heq
  | cons tree trees ih =>
    cases others with
    | nil =>
      obtain ⟨root, nested⟩ := tree
      simp [linesBelow, linesFrom_none_node] at heq
    | cons otherTree others =>
      rw [linesBelow, linesBelow] at heq
      obtain ⟨htree, hrest⟩ := shown_append_inj hlevel (by simp) (by simp) heq
      refine .cons (h tree List.mem_cons_self _ _ otherTree (by simp [hlevel]) htree) (ih ?_ hrest)
      exact fun next hnext => h next (List.mem_cons_of_mem tree hnext)

/-- The levels of the lines, with what is drawn of their occurrences, tell all that is drawn of a tree. -/
theorem drawnAlike_of_shown_eq (own otherOwn : List Bool) {tree other : Tree} (hlevel : own.length = otherOwn.length)
    (h : (linesFrom none own tree).map Line.shown = (linesFrom none otherOwn other).map Line.shown) :
    tree.DrawnAlike other := by
  induction tree using Tree.induct generalizing own otherOwn other with
  | node root nested ih =>
    obtain ⟨otherRoot, others⟩ := other
    rw [linesFrom_none_node, linesFrom_none_node, List.map_cons, List.map_cons] at h
    obtain ⟨hroot, hnested⟩ := List.cons.inj h
    refine drawnAlike_node_iff.2 ⟨(Prod.mk.inj hroot).2, forall₂_drawnAlike ?_ hlevel hnested⟩
    exact fun tree htree own otherOwn other hlevel heq => ih tree htree own otherOwn hlevel heq

/-- The texts of the lines below a root tell what the lines show. -/
theorem shown_eq_of_texts_eq {trees others : List Tree}
    (hpaths : ∀ line ∈ linesBelow none [] trees, Legible line.occurrence.path)
    (hotherPaths : ∀ line ∈ linesBelow none [] others, Legible line.occurrence.path)
    (h : (linesBelow none [] trees).map (Line.toText false) = (linesBelow none [] others).map (Line.toText false)) :
    (linesBelow none [] trees).map Line.shown = (linesBelow none [] others).map Line.shown := by
  have hbelow : ∀ (ts : List Tree), ∀ line ∈ linesBelow none [] ts, line.branch ≠ [] := by
    intro ts line hline
    exact List.length_pos_iff.1 (length_lt_of_mem_linesBelow hline)
  refine map_eq_map_of_forall (fun line hline other hother htext => ?_) h
  exact Line.shown_eq_of_toText_eq (hbelow trees line hline) (hbelow others other hother) (hpaths line hline)
    (hotherPaths other hother) htext

end Tree

namespace Corpus

/-- The lines of the tree of a page. -/
theorem lines_tree (corpus : Corpus) (page : Page) : (corpus.tree page).lines none =
    ⟨[], occurrence page none 0⟩ :: Tree.linesBelow none [] (corpus.tree page).nested :=
  Tree.linesFrom_none_node [] _ _

/-- What is drawn of two pages is the same if their drawings are. -/
theorem drawnAlike_tree_of_draw_eq {corpus other : Corpus} {page otherPage : Page}
    (hpaths : ∀ occurrence ∈ (corpus.tree page).flatten, Legible occurrence.path)
    (hotherPaths : ∀ occurrence ∈ (other.tree otherPage).flatten, Legible occurrence.path)
    (h : (corpus.tree page).draw none false = (other.tree otherPage).draw none false) :
    (corpus.tree page).DrawnAlike (other.tree otherPage) := by
  have hlegible : ∀ line ∈ (corpus.tree page).lines none, Legible line.occurrence.path :=
    fun line hline => hpaths _ (Tree.occurrence_mem_flatten_of_mem_linesFrom hline)
  have hotherLegible : ∀ line ∈ (other.tree otherPage).lines none, Legible line.occurrence.path :=
    fun line hline => hotherPaths _ (Tree.occurrence_mem_flatten_of_mem_linesFrom hline)
  have htexts := Tree.map_toText_eq_of_draw_eq (fun line hline => (hlegible line hline).newline)
    (fun line hline => (hotherLegible line hline).newline) h
  rw [lines_tree, lines_tree, List.map_cons, List.map_cons] at htexts
  rw [lines_tree] at hlegible hotherLegible
  obtain ⟨hroot, hbelow⟩ := List.cons.inj htexts
  have hshown := Tree.shown_eq_of_texts_eq (fun line hline => hlegible line (List.mem_cons_of_mem _ hline))
    (fun line hline => hotherLegible line (List.mem_cons_of_mem _ hline)) hbelow
  -- the first line is the path of the root, which is not circular
  have hdrawn : (occurrence page none 0).drawn = (occurrence otherPage none 0).drawn :=
    congrArg (·, none) (String.toList_inj.1 hroot)
  have hlines : ((corpus.tree page).lines none).map Line.shown = ((other.tree otherPage).lines none).map Line.shown := by
    rw [lines_tree, lines_tree, List.map_cons, List.map_cons, hshown, Line.shown, Line.shown, hdrawn]
  exact Tree.drawnAlike_of_shown_eq [] [] rfl hlines

/-- **A plain drawing tells the tree.** The trees of two paths, of one corpus or of two, have the same drawing iff they have
the same shape, and at each place the same path, a circular occurrence in both or in none, and the same depth at which its
page came first: provided that the paths in them start with a slash, hold no line end and do not end with a bracket. -/
theorem draw_eq_iff_drawnAlike {corpus other : Corpus} {path otherPath : String} {tree otherTree : Tree}
    (htree : corpus.tree? path = some tree) (hotherTree : other.tree? otherPath = some otherTree)
    (hpaths : ∀ occurrence ∈ tree.flatten, Legible occurrence.path)
    (hotherPaths : ∀ occurrence ∈ otherTree.flatten, Legible occurrence.path) :
    tree.draw none false = otherTree.draw none false ↔ tree.DrawnAlike otherTree := by
  obtain ⟨page, -, rfl⟩ := Option.map_eq_some_iff.1 htree
  obtain ⟨otherPage, -, rfl⟩ := Option.map_eq_some_iff.1 hotherTree
  exact ⟨drawnAlike_tree_of_draw_eq hpaths hotherPaths, fun h => h.draw_eq false⟩

/-- The entwined pages under other names, without the one that is not reached. -/
def renamed : Corpus := [{ pageA with name := "first" }, { pageB with name := "second" }]

/-- Names are not drawn: the trees differ in every name, and one drawing tells both. -/
theorem draw_eq_iff_drawnAlike_renamed :
    (tangled.tree? "/a" = some (tangled.tree pageA) ∧
      renamed.tree? "/a" = some (renamed.tree { pageA with name := "first" }) ∧
      (∀ occurrence ∈ (tangled.tree pageA).flatten, Legible occurrence.path) ∧
      (∀ occurrence ∈ (renamed.tree { pageA with name := "first" }).flatten, Legible occurrence.path) ∧
      (tangled.tree pageA).draw none false = (renamed.tree { pageA with name := "first" }).draw none false) ∧
    (tangled.tree pageA).DrawnAlike (renamed.tree { pageA with name := "first" }) := by
  have htree : tangled.tree? "/a" = some (tangled.tree pageA) := rfl
  have hrenamed : renamed.tree? "/a" = some (renamed.tree { pageA with name := "first" }) := rfl
  have hlegible : ∀ path ∈ tangled.paths ++ renamed.paths, Legible path := by decide
  have hpaths : ∀ occurrence ∈ (tangled.tree pageA).flatten, Legible occurrence.path := fun occurrence hmem =>
    hlegible _ (List.mem_append_left _ (path_mem_paths_of_mem_flatten (by decide) hmem))
  have hrenamedPaths : ∀ occurrence ∈ (renamed.tree { pageA with name := "first" }).flatten, Legible occurrence.path :=
    fun occurrence hmem => hlegible _ (List.mem_append_right _ (path_mem_paths_of_mem_flatten (by decide) hmem))
  have hdraw : (tangled.tree pageA).draw none false = (renamed.tree { pageA with name := "first" }).draw none false :=
    Tree.draw_eq_of_map_drawn_eq (by cbv) false
  exact ⟨⟨htree, hrenamed, hpaths, hrenamedPaths, hdraw⟩,
    (draw_eq_iff_drawnAlike htree hrenamed hpaths hrenamedPaths).1 hdraw⟩

end Corpus

end PageGraph
