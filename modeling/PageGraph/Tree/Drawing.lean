import PageGraph.Tree.Basic
import PageGraph.Text.Decimal

/-!
# Drawing trees

A tree is drawn with one line for each occurrence, in the order of `Tree.flatten`. In front of a line stand
the branches that lead to it: for each level above its own a stem, if another tree follows on that level, or
blanks; then its own branch. `Line.branch` holds, for each of these levels, whether it is the last of its
level. A limit leaves out what lies below the occurrences of that depth.

In colour the root is written bold and cyan, a circular occurrence yellow and its remark grey.
-/

namespace PageGraph

/-- A line of a drawing. -/
structure Line where
  /-- For each level below the root, whether the branch there is the last one; empty for the root. -/
  branch : List Bool
  occurrence : Occurrence
  deriving DecidableEq, Repr

namespace Tree

mutual

/-- The lines of a tree at the end of a branch. -/
def linesFrom (limit : Option Nat) (branch : List Bool) : Tree → List Line
  | .node occurrence nested =>
    ⟨branch, occurrence⟩ ::
      (if limit.any (· ≤ occurrence.depth) then [] else linesBelow limit branch nested)

/-- The lines of the trees that follow each other below a branch. -/
def linesBelow (limit : Option Nat) (branch : List Bool) : List Tree → List Line
  | [] => []
  | tree :: trees => linesFrom limit (branch ++ [trees.isEmpty]) tree ++ linesBelow limit branch trees

end

/-- The lines of a tree. -/
def lines (limit : Option Nat) (tree : Tree) : List Line := linesFrom limit [] tree

end Tree

namespace Colour

/-- Ends all colours. -/
def reset : List Char := [Char.ofNat 0x1B, '[', '0', 'm']

/-- Begins the style with a code. -/
def start (code : String) : List Char := Char.ofNat 0x1B :: '[' :: code.toList ++ ['m']

/-- A text in which the style is taken up again wherever the text ends it. -/
def takenUp (code : String) : List Char → List Char
  | '\x1b' :: '[' :: '0' :: 'm' :: rest => reset ++ start code ++ takenUp code rest
  | c :: rest => c :: takenUp code rest
  | [] => []

/-- A text in the style with a code. -/
def painted (code : String) (text : List Char) : List Char := start code ++ takenUp code text ++ reset

/-- A text, in the style with a code if colours are on. -/
def paintedIf (coloured : Bool) (code : String) (text : List Char) : List Char :=
  if coloured then painted code text else text

end Colour

namespace Line

/-- What stands for a level above the own one. -/
def stem (last : Bool) : List Char := if last then "    ".toList else "│   ".toList

/-- What stands for the own level. -/
def connector (last : Bool) : List Char := if last then "└── ".toList else "├── ".toList

/-- What stands in front of the label. -/
def branchText : List Bool → List Char
  | [] => []
  | [last] => connector last
  | last :: rest => stem last ++ branchText rest

/-- The remark of a circular occurrence. -/
def remark (mark : CycleMark) : List Char :=
  "(circular, first included at depth ".toList ++ Text.Decimal.digits mark.firstIncludedDepth ++ [')']

/-- What is written of an occurrence below the root. -/
def label (coloured : Bool) (occurrence : Occurrence) : List Char :=
  match occurrence.circular with
  | none => occurrence.path.toList
  | some mark =>
    Colour.paintedIf coloured "33" occurrence.path.toList ++
      ' ' :: Colour.paintedIf coloured "90" (remark mark)

/-- The text of a line, without its end. -/
def toText (coloured : Bool) (line : Line) : List Char :=
  match line.branch with
  | [] => Colour.paintedIf coloured "1;36" line.occurrence.path.toList
  | branch => branchText branch ++ label coloured line.occurrence

end Line

/-- The drawing of a tree, down to a depth if there is a limit. -/
def Tree.draw (limit : Option Nat) (coloured : Bool) (tree : Tree) : String :=
  String.ofList ((tree.lines limit).flatMap fun line => line.toText coloured ++ ['\n'])

end PageGraph
