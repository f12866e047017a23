import PageGraph.Text.LetterCase

/-!
# Lower case

The full lower-case form of a text: each character by the one-to-one mappings, `İ` as two characters, and a
capital sigma by its place: `ς` at the end of a word, `σ` elsewhere. A sigma ends a word when a cased
character comes before it and none after it, case-ignorable characters between them not counting.
-/

namespace PageGraph.Text

/-- Whether a code point lies in one of the closed ranges. -/
def inRanges (ranges : List (Nat × Nat)) (n : Nat) : Bool :=
  ranges.any fun (low, high) => low ≤ n && n ≤ high

/-- Whether a character has the property `Cased`. -/
def isCased (c : Char) : Bool := inRanges casedRanges c.toNat

/-- Whether a character has the property `Case_Ignorable`. -/
def isCaseIgnorable (c : Char) : Bool := inRanges caseIgnorableRanges c.toNat

/-- The image of a code point in a run, if the run holds it. -/
def CaseRun.image? (run : CaseRun) (n : Nat) : Option Nat :=
  if run.first ≤ n ∧ n ≤ run.last ∧ (n - run.first) % run.step = 0 then some (run.image + (n - run.first))
  else none

/-- The lower-case form of a character by itself. -/
def lowerOf (c : Char) : List Char :=
  if c.toNat < 0x80 then [c.toLower]
  else if c.toNat = 0x130 then ['i', Char.ofNat 0x307]
  else
    match lowerCaseRuns.findSome? fun run => run.image? c.toNat with
    | some n => [Char.ofNat n]
    | none => [c]

/-- Whether the first character that is not case-ignorable is cased. -/
def casedNext (text : List Char) : Bool :=
  match text.dropWhile isCaseIgnorable with
  | c :: _ => isCased c
  | [] => false

/-- The lower-case form of a text that follows the characters of `before`, nearest first. -/
def lowerAfter (before : List Char) : List Char → List Char
  | [] => []
  | c :: after =>
    (if c = 'Σ' then [if casedNext before && !casedNext after then 'ς' else 'σ'] else lowerOf c) ++
      lowerAfter (c :: before) after

/-- The lower-case form of a text. -/
def lower (text : List Char) : List Char := lowerAfter [] text

end PageGraph.Text
