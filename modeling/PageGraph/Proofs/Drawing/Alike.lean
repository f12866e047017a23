import PageGraph.Proofs.Drawing.Lines
import Mathlib.Data.List.Basic
import Mathlib.Data.List.Forall2
import Mathlib.Data.Nat.Notation

/-!
# What a drawing shows

Of an occurrence a drawing shows the path and, where it ends a cycle, the depth at which its page came first. Names,
includers, references that are not expanded and the depths themselves are not drawn.

* `Occurrence.drawn`, `Tree.DrawnAlike` : what is drawn of an occurrence, and that it is the same at each place of two trees
  of one shape;
* `Tree.drawnAlike_node_iff` : the same, told along the data;
* `Tree.draw_eq_of_map_drawn_eq`, `Tree.DrawnAlike.draw_eq` : nothing else goes into a drawing without a limit, plain or in
  colour.
-/

namespace PageGraph

/-- What a drawing shows of an occurrence: its path, and of a circular one the depth at which its page came first. -/
def Occurrence.drawn (occurrence : Occurrence) : String × Option ℕ :=
  (occurrence.path, occurrence.circular.map CycleMark.firstIncludedDepth)

/-- What is drawn of a line. -/
def Line.drawn (line : Line) : List Bool × String × Option ℕ := (line.branch, line.occurrence.drawn)

/-- Two trees have the same shape, and a drawing shows the same at each place of it. -/
def Tree.DrawnAlike (tree other : Tree) : Prop :=
  ∀ way, (tree.at? way).map (·.occurrence.drawn) = (other.at? way).map (·.occurrence.drawn)

namespace Line

theorem label_eq_of_drawn_eq {occurrence other : Occurrence} (h : occurrence.drawn = other.drawn) (coloured : Bool) :
    label coloured occurrence = label coloured other := by
  obtain ⟨hpath, hmark⟩ := Prod.mk.inj h
  cases hcircular : occurrence.circular with
  | none =>
    rw [hcircular, Option.map_none, eq_comm, Option.map_eq_none_iff] at hmark
    simp only [label, hcircular, hmark, hpath]
  | some mark =>
    rw [hcircular, Option.map_some, eq_comm, Option.map_eq_some_iff] at hmark
    obtain ⟨otherMark, hother, hdepth⟩ := hmark
    have hremark : remark mark = remark otherMark := by
      unfold remark
      rw [hdepth]
    simp only [label, hcircular, hother, hpath, hremark]

theorem toText_eq_of_drawn_eq {line other : Line} (h : line.drawn = other.drawn) (coloured : Bool) :
    line.toText coloured = other.toText coloured := by
  obtain ⟨branch, occurrence⟩ := line
  obtain ⟨_, other⟩ := other
  obtain ⟨rfl, hdrawn⟩ := Prod.mk.inj h
  cases branch with
  | nil => exact congrArg (fun path : String => Colour.paintedIf coloured "1;36" path.toList) (Prod.mk.inj hdrawn).1
  | cons last rest => exact congrArg (branchText (last :: rest) ++ ·) (label_eq_of_drawn_eq hdrawn coloured)

end Line

namespace Tree

theorem linesFrom_none_node (branch : List Bool) (root : Occurrence) (nested : List Tree) :
    linesFrom none branch (.node root nested) = ⟨branch, root⟩ :: linesBelow none branch nested := by
  simp [linesFrom]

/-- Trees are drawn alike iff their roots are and, one by one, the trees below them. -/
theorem drawnAlike_node_iff {root other : Occurrence} {nested others : List Tree} :
    DrawnAlike (.node root nested) (.node other others) ↔
      root.drawn = other.drawn ∧ List.Forall₂ DrawnAlike nested others := by
  constructor
  · intro h
    have hplaces : ∀ i : ℕ, i < nested.length ↔ i < others.length := by
      intro i
      have hsome := Bool.eq_iff_iff.1 (congrArg Option.isSome (h [i]))
      simpa [at?, Tree.nested] using hsome
    have hlength : nested.length = others.length := by
      have hle := hplaces nested.length
      have hge := hplaces others.length
      omega
    refine ⟨Option.some.inj (h []), List.forall₂_iff_get.2 ⟨hlength, fun i hi hi' way => ?_⟩⟩
    have hway := h (i :: way)
    rwa [at?_node_cons, at?_node_cons, List.getElem?_eq_getElem hi, List.getElem?_eq_getElem hi'] at hway
  · rintro ⟨hroot, hnested⟩ way
    cases way with
    | nil => exact congrArg some hroot
    | cons i way =>
      rw [at?_node_cons, at?_node_cons]
      by_cases hi : i < nested.length
      · have hi' : i < others.length := hnested.length_eq ▸ hi
        rw [List.getElem?_eq_getElem hi, List.getElem?_eq_getElem hi']
        exact hnested.get hi hi' way
      · have hi' : ¬ i < others.length := hnested.length_eq ▸ hi
        rw [List.getElem?_eq_none (by omega), List.getElem?_eq_none (by omega)]

/-- What is drawn of the lines is all that goes into a drawing. -/
theorem draw_eq_of_map_drawn_eq {tree other : Tree}
    (h : (tree.lines none).map Line.drawn = (other.lines none).map Line.drawn) (coloured : Bool) :
    tree.draw none coloured = other.draw none coloured := by
  have htexts := map_eq_map_of_forall (fun line _ other _ heq => Line.toText_eq_of_drawn_eq heq coloured) h
  rw [← String.toList_inj, toList_draw, toList_draw, htexts]

theorem map_drawn_linesBelow_eq {trees others : List Tree}
    (h : List.Forall₂ (fun tree other => ∀ branch,
      (linesFrom none branch tree).map Line.drawn = (linesFrom none branch other).map Line.drawn) trees others)
    (branch : List Bool) :
    (linesBelow none branch trees).map Line.drawn = (linesBelow none branch others).map Line.drawn := by
  induction h with
  | nil => rfl
  | @cons tree other trees others htree htrees ih =>
    have hlast : trees.isEmpty = others.isEmpty := by cases htrees <;> rfl
    rw [linesBelow, linesBelow, List.map_append, List.map_append, htree, hlast, ih]

theorem DrawnAlike.map_drawn_linesFrom {tree other : Tree} (h : tree.DrawnAlike other) (branch : List Bool) :
    (linesFrom none branch tree).map Line.drawn = (linesFrom none branch other).map Line.drawn := by
  induction tree using Tree.induct generalizing other branch with
  | node root nested ih =>
    obtain ⟨otherRoot, others⟩ := other
    obtain ⟨hroot, hnested⟩ := drawnAlike_node_iff.1 h
    obtain ⟨hlength, hzip⟩ := List.forall₂_iff_zip.1 hnested
    have hbelow := map_drawn_linesBelow_eq (List.forall₂_iff_zip.2
      ⟨hlength, fun hmem own => ih _ (List.of_mem_zip hmem).1 (hzip hmem) own⟩) branch
    rw [linesFrom_none_node, linesFrom_none_node, List.map_cons, List.map_cons, hbelow, Line.drawn, Line.drawn, hroot]

/-- **Trees that show the same are drawn the same.** -/
theorem DrawnAlike.draw_eq {tree other : Tree} (h : tree.DrawnAlike other) (coloured : Bool) :
    tree.draw none coloured = other.draw none coloured :=
  draw_eq_of_map_drawn_eq (h.map_drawn_linesFrom []) coloured

end Tree

end PageGraph
