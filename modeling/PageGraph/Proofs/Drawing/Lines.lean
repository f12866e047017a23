import PageGraph.Proofs.Lists
import PageGraph.Proofs.Tree.Positions
import PageGraph.Tree.Drawing
import Mathlib.Data.List.Basic
import Mathlib.Data.Nat.Notation

/-!
# The lines of a drawing

A drawing has one line for each occurrence, in the order in which the tree is read (`Tree.map_occurrence_lines`). Between
the lines stand line ends, and nothing else in a drawing is a line end unless a path holds one: neither branches nor
remarks nor colours do (`Line.newline_notMem_toText`). So a drawing is split at its line ends into the texts of its lines
(`Tree.splitOn_draw`).
-/

namespace PageGraph

namespace Tree

/-! ### Occurrences -/

theorem map_occurrence_linesBelow {trees : List Tree}
    (h : ∀ tree ∈ trees, ∀ branch, (linesFrom none branch tree).map Line.occurrence = tree.flatten)
    (branch : List Bool) : (linesBelow none branch trees).map Line.occurrence = flattenAll trees := by
  induction trees with
  | nil => rfl
  | cons tree trees ih =>
    rw [linesBelow, flattenAll, List.map_append, h tree List.mem_cons_self,
      ih fun other hother => h other (List.mem_cons_of_mem tree hother)]

theorem map_occurrence_linesFrom (branch : List Bool) (tree : Tree) :
    (linesFrom none branch tree).map Line.occurrence = tree.flatten := by
  induction tree using Tree.induct generalizing branch with
  | node root nested ih => simp [linesFrom, flatten, map_occurrence_linesBelow fun tree htree branch => ih tree htree branch]

/-- **One line for each occurrence,** in the order in which the tree is read. -/
theorem map_occurrence_lines (tree : Tree) : (tree.lines none).map Line.occurrence = tree.flatten :=
  map_occurrence_linesFrom [] tree

theorem occurrence_mem_flatten_of_mem_linesFrom {branch : List Bool} {tree : Tree} {line : Line}
    (h : line ∈ linesFrom none branch tree) : line.occurrence ∈ tree.flatten := by
  rw [← map_occurrence_linesFrom branch]
  exact List.mem_map_of_mem h

/-- A line of trees that follow each other is a line of one of them, which stands one level below the branch. -/
theorem exists_of_mem_linesBelow {limit : Option ℕ} {branch : List Bool} {trees : List Tree} {line : Line}
    (h : line ∈ linesBelow limit branch trees) :
    ∃ tree ∈ trees, ∃ last, line ∈ linesFrom limit (branch ++ [last]) tree := by
  induction trees with
  | nil => cases h
  | cons tree trees ih =>
    rw [linesBelow] at h
    rcases List.mem_append.1 h with h | h
    · exact ⟨tree, List.mem_cons_self, trees.isEmpty, h⟩
    · obtain ⟨other, hother, last, hline⟩ := ih h
      exact ⟨other, List.mem_cons_of_mem tree hother, last, hline⟩

end Tree

/-! ### Line ends -/

/-- A text in colour holds what the text holds, and what begins and ends the colour. -/
theorem Colour.mem_takenUp {code : String} {text : List Char} {c : Char} (h : c ∈ takenUp code text) :
    c ∈ text ∨ c ∈ reset ++ start code := by
  fun_induction takenUp code text with
  | case1 rest ih =>
    rcases List.mem_append.1 h with h | h
    · exact Or.inr h
    · rcases ih h with h | h
      · exact Or.inl (by simp [h])
      · exact Or.inr h
  | case2 first rest hfirst ih =>
    rcases List.mem_cons.1 h with rfl | h
    · exact Or.inl List.mem_cons_self
    · exact (ih h).imp_left (List.mem_cons_of_mem first)
  | case3 => cases h

theorem Colour.newline_notMem_paintedIf {coloured : Bool} {code : String} {text : List Char}
    (hcode : '\n' ∉ reset ++ start code) (htext : '\n' ∉ text) : '\n' ∉ paintedIf coloured code text := by
  intro hmem
  cases coloured with
  | false => exact htext hmem
  | true =>
    rw [paintedIf, if_pos rfl, painted, List.mem_append, List.mem_append] at hmem
    rcases hmem with (hstart | htaken) | hreset
    · exact hcode (List.mem_append_right _ hstart)
    · exact (mem_takenUp htaken).elim htext hcode
    · exact hcode (List.mem_append_left _ hreset)

namespace Line

theorem newline_notMem_branchText (branch : List Bool) : '\n' ∉ branchText branch := by
  have hstem : ∀ last, '\n' ∉ stem last := by decide
  have hconnector : ∀ last, '\n' ∉ connector last := by decide
  fun_induction branchText branch with
  | case1 => exact List.not_mem_nil
  | case2 last => exact hconnector last
  | case3 last rest _ ih => simp [hstem last, ih]

theorem newline_notMem_remark (mark : CycleMark) : '\n' ∉ remark mark := by
  intro hmem
  unfold remark at hmem
  rcases List.mem_append.1 hmem with hmem | hend
  · rcases List.mem_append.1 hmem with hwords | hdigits
    · exact absurd hwords (by decide +kernel)
    · exact absurd (Text.Decimal.isDigit_of_mem_digits hdigits) (by decide)
  · exact absurd hend (by decide)

theorem newline_notMem_label {occurrence : Occurrence} (h : '\n' ∉ occurrence.path.toList) (coloured : Bool) :
    '\n' ∉ label coloured occurrence := by
  cases hmark : occurrence.circular with
  | none => simpa [label, hmark] using h
  | some mark =>
    have hpath : '\n' ∉ Colour.paintedIf coloured "33" occurrence.path.toList :=
      Colour.newline_notMem_paintedIf (by decide) h
    have hremark : '\n' ∉ Colour.paintedIf coloured "90" (remark mark) :=
      Colour.newline_notMem_paintedIf (by decide) (newline_notMem_remark mark)
    simp [label, hmark, hpath, hremark]

/-- A line holds a line end only where its path does. -/
theorem newline_notMem_toText {line : Line} (h : '\n' ∉ line.occurrence.path.toList) (coloured : Bool) :
    '\n' ∉ line.toText coloured := by
  obtain ⟨branch, occurrence⟩ := line
  cases branch with
  | nil => exact Colour.newline_notMem_paintedIf (by decide) h
  | cons last rest =>
    have hbranch := newline_notMem_branchText (last :: rest)
    have hlabel := newline_notMem_label h coloured
    simp [toText, hbranch, hlabel]

end Line

theorem Tree.toList_draw (limit : Option ℕ) (coloured : Bool) (tree : Tree) :
    (tree.draw limit coloured).toList = ((tree.lines limit).map (Line.toText coloured)).flatMap (· ++ ['\n']) := by
  rw [draw, String.toList_ofList, List.flatMap_map]

/-- **A drawing is split into the texts of its lines,** if no path holds a line end. -/
theorem Tree.splitOn_draw {limit : Option ℕ} {tree : Tree}
    (h : ∀ line ∈ tree.lines limit, '\n' ∉ line.occurrence.path.toList) (coloured : Bool) :
    (tree.draw limit coloured).toList.splitOn '\n' = (tree.lines limit).map (Line.toText coloured) ++ [[]] := by
  rw [toList_draw]
  refine splitOnP_flatMap_concat (by simp) fun text htext c hc => ?_
  obtain ⟨line, hline, rfl⟩ := List.mem_map.1 htext
  have hne : c ≠ '\n' := by
    rintro rfl
    exact Line.newline_notMem_toText (h line hline) coloured hc
  simpa using hne

/-- One drawing of two trees has one list of lines, if no path holds a line end. -/
theorem Tree.map_toText_eq_of_draw_eq {limit : Option ℕ} {coloured : Bool} {tree other : Tree}
    (hpaths : ∀ line ∈ tree.lines limit, '\n' ∉ line.occurrence.path.toList)
    (hotherPaths : ∀ line ∈ other.lines limit, '\n' ∉ line.occurrence.path.toList)
    (h : tree.draw limit coloured = other.draw limit coloured) :
    (tree.lines limit).map (Line.toText coloured) = (other.lines limit).map (Line.toText coloured) := by
  have hsplit := splitOn_draw hpaths coloured
  rw [h, splitOn_draw hotherPaths coloured] at hsplit
  exact (List.append_cancel_right hsplit).symm

end PageGraph
