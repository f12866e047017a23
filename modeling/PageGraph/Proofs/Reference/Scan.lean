import PageGraph.Proofs.Reference.Spelling
import PageGraph.Proofs.Text.Search
import PageGraph.Reference.Extraction

/-!
# What a scan picks

The references of a page text are told by its declarations alone. Wherever the scan stands, it picks the first
declaration that starts there or further on, and goes on behind it (`Picks`). What the scan gives is the only list that
is picked like this, and every declaration of the text is in it unless it starts inside an earlier one that was picked.

The scan itself works on what is left of the text. One step of it either finds the declaration that starts here, or finds
none and goes one character further; both steps keep the list that is picked (`exists_picks_scan`).

* `Occurrence.IsIn` : a declaration stands in a text;
* `Picks.eq_of_picks`, `Picks.covers` : one list only is picked, and it leaves out only what overlaps;
* `references_eq_picked` : the references of a page text.
-/

namespace PageGraph.Declarations

/-- Where a declaration starts in a text, where it ends, and its value. -/
structure Occurrence where
  start : Nat
  stop : Nat
  value : List Char
  deriving DecidableEq, Repr

/-- The occurrence of a declaration that has so many characters before it. -/
def Spelling.occurrence (spelling : Spelling) (start : Nat) : Occurrence where
  start
  stop := start + spelling.text.length
  value := spelling.value

/-- A declaration stands in a text at this place. -/
def Occurrence.IsIn (declarations : Declarations) (text : List Char) (occurrence : Occurrence) : Prop :=
  ∃ (before : List Char) (spelling : Spelling) (after : List Char), spelling.IsDeclaration declarations ∧
    text = before ++ (spelling.text ++ after) ∧ occurrence = spelling.occurrence before.length

/-- From a position on, declarations are picked one after the other: each is the first that starts at the position or
behind it, and the next position is its end. -/
inductive Picks (declarations : Declarations) (text : List Char) : Nat → List Occurrence → Prop
  | none {position : Nat} (h : ∀ other : Occurrence, other.IsIn declarations text → other.start < position) :
    Picks declarations text position []
  | pick {position : Nat} {first : Occurrence} {rest : List Occurrence} (isIn : first.IsIn declarations text)
    (from_position : position ≤ first.start)
    (first_of : ∀ other : Occurrence, other.IsIn declarations text → position ≤ other.start → first.start ≤ other.start)
    (picks : Picks declarations text first.stop rest) : Picks declarations text position (first :: rest)

variable {declarations : Declarations} {text before behind : List Char} {position : Nat} {picked : List Occurrence}
  {occurrence other : Occurrence}

/-! ### Occurrences -/

theorem Spelling.text_ne_nil (spelling : Spelling) : spelling.text ≠ [] :=
  List.append_ne_nil_of_right_ne_nil _ (List.append_ne_nil_of_right_ne_nil _ (List.cons_ne_nil _ _))

theorem Occurrence.IsIn.start_lt_stop (h : occurrence.IsIn declarations text) : occurrence.start < occurrence.stop := by
  obtain ⟨before, spelling, after, -, -, rfl⟩ := h
  exact Nat.lt_add_of_pos_right (List.length_pos_of_ne_nil spelling.text_ne_nil)

theorem Occurrence.IsIn.stop_le (h : occurrence.IsIn declarations text) : occurrence.stop ≤ text.length := by
  obtain ⟨before, spelling, after, -, rfl, rfl⟩ := h
  simp only [Spelling.occurrence, List.length_append]
  omega

/-- **The value is a part of the text** inside of the declaration. -/
theorem Occurrence.IsIn.slice (h : occurrence.IsIn declarations text) :
    ∃ before after, text = before ++ (occurrence.value ++ after) ∧ occurrence.start < before.length ∧
      before.length + occurrence.value.length < occurrence.stop := by
  obtain ⟨before, spelling, after, -, rfl, rfl⟩ := h
  refine ⟨before ++ (spelling.name ++ (spelling.beforeSign ++ '=' :: (spelling.afterSign ++ [spelling.quote]))),
    spelling.afterValue ++ spelling.quote :: after, ?_, ?_, ?_⟩
  · simp only [Spelling.text, Spelling.occurrence, List.append_assoc, List.cons_append, List.nil_append]
  · simp only [Spelling.occurrence, List.length_append, List.length_cons]
    omega
  · simp only [Spelling.text, Spelling.occurrence, List.length_append, List.length_cons]
    omega

/-- Only one declaration starts at a place. -/
theorem Occurrence.IsIn.eq_of_start_eq (hwords : declarations.OfWords) (h : occurrence.IsIn declarations text)
    (hother : other.IsIn declarations text) (hstart : occurrence.start = other.start) : occurrence = other := by
  obtain ⟨before, spelling, after, hspelling, rfl, rfl⟩ := h
  obtain ⟨before', spelling', after', hspelling', htext, rfl⟩ := hother
  obtain ⟨rfl, hrest⟩ := List.append_inj htext hstart
  obtain ⟨hvalue, hspelled, -⟩ := Spelling.eq_of_text_append_eq hwords hspelling hspelling' hrest
  rw [Spelling.occurrence, Spelling.occurrence, hvalue, hspelled]

/-- Whether a declaration starts at a place is seen from the text behind the place. -/
theorem exists_isIn_of_declaration?_eq_some (hwords : declarations.OfWords) (before : List Char) {value rest : List Char}
    (h : declarations.declaration? behind = some (value, rest)) :
    ∃ segment, behind = segment ++ rest ∧
      (⟨before.length, (before ++ segment).length, value⟩ : Occurrence).IsIn declarations (before ++ behind) := by
  obtain ⟨spelling, hspelling, rfl, rfl⟩ := (declaration?_eq_some_iff hwords).1 h
  refine ⟨spelling.text, rfl, before, spelling, rest, hspelling, rfl, ?_⟩
  rw [List.length_append]
  rfl

theorem Occurrence.IsIn.start_ne (hwords : declarations.OfWords) (h : declarations.declaration? behind = none)
    (hother : other.IsIn declarations (before ++ behind)) : other.start ≠ before.length := by
  obtain ⟨before', spelling, after, hspelling, htext, rfl⟩ := hother
  intro hstart
  obtain ⟨-, hbehind⟩ := List.append_inj htext.symm hstart
  exact (declaration?_eq_none_iff hwords).1 h spelling after hspelling hbehind.symm

/-! ### One step of the scan -/

theorem scan_of_eq_some {value rest : List Char} (h : declarations.declaration? text = some (value, rest)) :
    declarations.scan text = value :: declarations.scan rest := by
  rw [scan.eq_def]
  split
  · next hfound =>
    obtain ⟨rfl, rfl⟩ := Prod.mk.inj (Option.some.inj (h.symm.trans hfound))
    rfl
  · next hfound => rw [h] at hfound; cases hfound

theorem scan_nil (h : declarations.declaration? [] = none) : declarations.scan [] = [] := by
  rw [scan.eq_def]
  split
  · next hfound => rw [h] at hfound; cases hfound
  · rfl

theorem scan_cons_of_eq_none {c : Char} (h : declarations.declaration? (c :: text) = none) :
    declarations.scan (c :: text) = declarations.scan text := by
  rw [scan.eq_def]
  split
  · next hfound => rw [h] at hfound; cases hfound
  · rfl

/-! ### What is picked -/

/-- Where no declaration starts, one character may be passed. -/
theorem Picks.of_succ (hno : ∀ other : Occurrence, other.IsIn declarations text → other.start ≠ position)
    (h : Picks declarations text (position + 1) picked) : Picks declarations text position picked := by
  cases h with
  | none h =>
    exact .none fun other hother => Nat.lt_of_le_of_ne (Nat.le_of_lt_succ (h other hother)) (hno other hother)
  | pick isIn from_position first_of picks =>
    refine .pick isIn (Nat.le_of_succ_le from_position) (fun other hother hposition => ?_) picks
    exact first_of other hother (Nat.lt_of_le_of_ne hposition (hno other hother).symm)

/-- **What the scan finds is picked** from where it stands. -/
theorem exists_picks_scan (hwords : declarations.OfWords) (before behind : List Char) :
    ∃ picked, Picks declarations (before ++ behind) before.length picked ∧
      picked.map Occurrence.value = declarations.scan behind := by
  induction hlength : behind.length using Nat.strongRecOn generalizing before behind with
  | ind length ih =>
    cases hfound : declarations.declaration? behind with
    | some found =>
      obtain ⟨value, rest⟩ := found
      have hshorter : rest.length < length := hlength ▸ declarations.length_declaration?_lt hfound
      obtain ⟨segment, rfl, hisIn⟩ := exists_isIn_of_declaration?_eq_some hwords before hfound
      obtain ⟨picked, hpicked, hvalues⟩ := ih rest.length hshorter (before ++ segment) rest rfl
      rw [List.append_assoc] at hpicked
      refine ⟨_, .pick hisIn (Nat.le_refl _) (fun other hother hposition => hposition) hpicked, ?_⟩
      rw [List.map_cons, hvalues, scan_of_eq_some hfound]
    | none =>
      have hno : ∀ other : Occurrence, other.IsIn declarations (before ++ behind) → other.start ≠ before.length :=
        fun other hother => hother.start_ne hwords hfound
      cases behind with
      | nil =>
        refine ⟨[], .none fun other hother => ?_, ?_⟩
        · have hstop := hother.stop_le
          rw [List.append_nil] at hstop
          exact Nat.lt_of_lt_of_le hother.start_lt_stop hstop
        · rw [scan_nil hfound, List.map_nil]
      | cons c behind =>
        obtain ⟨picked, hpicked, hvalues⟩ :=
          ih behind.length (hlength ▸ Nat.lt_succ_self _) (before ++ [c]) behind rfl
        rw [List.append_assoc, List.singleton_append, List.length_append, List.length_singleton] at hpicked
        exact ⟨picked, hpicked.of_succ hno, hvalues.trans (scan_cons_of_eq_none hfound).symm⟩

/-- **One list only is picked.** -/
theorem Picks.eq_of_picks (hwords : declarations.OfWords) (h : Picks declarations text position picked)
    {others : List Occurrence} (hothers : Picks declarations text position others) : others = picked := by
  induction h generalizing others with
  | none h =>
    cases hothers with
    | none => rfl
    | pick isIn from_position => exact absurd (h _ isIn) (Nat.not_lt.2 from_position)
  | pick isIn from_position first_of picks ih =>
    cases hothers with
    | none h => exact absurd (h _ isIn) (Nat.not_lt.2 from_position)
    | pick isIn' from_position' first_of' picks' =>
      have hstart := Nat.le_antisymm (first_of' _ isIn from_position) (first_of _ isIn' from_position')
      obtain rfl := isIn'.eq_of_start_eq hwords isIn hstart
      rw [ih picks']

theorem Picks.isIn (h : Picks declarations text position picked) (hmem : occurrence ∈ picked) :
    occurrence.IsIn declarations text := by
  induction h with
  | none => cases hmem
  | pick isIn _ _ _ ih =>
    rcases List.mem_cons.1 hmem with rfl | hmem
    · exact isIn
    · exact ih hmem

theorem Picks.le_start (h : Picks declarations text position picked) (hmem : occurrence ∈ picked) :
    position ≤ occurrence.start := by
  induction h with
  | none => cases hmem
  | pick isIn from_position _ _ ih =>
    rcases List.mem_cons.1 hmem with rfl | hmem
    · exact from_position
    · exact from_position.trans (isIn.start_lt_stop.le.trans (ih hmem))

/-- **What is picked does not overlap** and stands in the order of the text. -/
theorem Picks.pairwise (h : Picks declarations text position picked) :
    picked.Pairwise fun earlier later => earlier.stop ≤ later.start := by
  induction h with
  | none => exact .nil
  | pick _ _ _ picks ih => exact .cons (fun later hlater => picks.le_start hlater) ih

/-- **What is not picked starts inside** an earlier declaration that is. -/
theorem Picks.covers (hwords : declarations.OfWords) (h : Picks declarations text position picked)
    (hother : other.IsIn declarations text) (hposition : position ≤ other.start) :
    other ∈ picked ∨ ∃ earlier ∈ picked, earlier.start < other.start ∧ other.start < earlier.stop := by
  induction h with
  | none h => exact absurd (h other hother) (Nat.not_lt.2 hposition)
  | @pick _ first _ isIn _ first_of _ ih =>
    rcases Nat.eq_or_lt_of_le (first_of other hother hposition) with hstart | hstart
    · obtain rfl := isIn.eq_of_start_eq hwords hother hstart
      exact .inl List.mem_cons_self
    · by_cases hstop : other.start < first.stop
      · exact .inr ⟨first, List.mem_cons_self, hstart, hstop⟩
      · rcases ih (Nat.not_lt.1 hstop) with hmem | ⟨earlier, hmem, hearlier⟩
        · exact .inl (List.mem_cons_of_mem first hmem)
        · exact .inr ⟨earlier, List.mem_cons_of_mem first hmem, hearlier⟩

end PageGraph.Declarations

namespace PageGraph

open Declarations

/-- A value holds one of the placeholders of a layout, other than an empty one. -/
def Layout.HoldsPlaceholder (layout : Layout) (value : List Char) : Prop :=
  ∃ placeholder ∈ layout.invalidPlaceholders, placeholder ≠ "" ∧ placeholder.toList <:+: value

instance (layout : Layout) (value : List Char) : Decidable (layout.HoldsPlaceholder value) :=
  inferInstanceAs (Decidable (∃ placeholder ∈ layout.invalidPlaceholders, _))

theorem Layout.isReference_eq (layout : Layout) (value : List Char) :
    layout.isReference (String.ofList value) = !decide (layout.HoldsPlaceholder value) := by
  rw [isReference, String.toList_ofList, Bool.not_inj_iff, Bool.eq_iff_iff, decide_eq_true_eq]
  exact Text.anyOccursIn_iff

theorem ofWords_ofLayout {layout : Layout} (hattributes : ∀ name ∈ layout.referenceAttributes, IsWord name.toList)
    (hextensions : ∀ extension ∈ layout.extensions, IsWord extension.toList) : (ofLayout layout).OfWords where
  attributes := List.forall_mem_map.2 hattributes
  extensions := List.forall_mem_map.2 hextensions

/-- **The references of a page text** are the values of the declarations that are picked from its start on, without those
that hold a placeholder. -/
theorem references_eq_picked {layout : Layout}
    (hattributes : ∀ name ∈ layout.referenceAttributes, IsWord name.toList)
    (hextensions : ∀ extension ∈ layout.extensions, IsWord extension.toList) (text : String) :
    ∃ picked, Picks (ofLayout layout) text.toList 0 picked ∧
      (∀ others, Picks (ofLayout layout) text.toList 0 others → others = picked) ∧
      references layout text =
        ((picked.map Occurrence.value).filter fun value => ¬layout.HoldsPlaceholder value).map String.ofList ∧
      (∀ occurrence ∈ picked, ∃ before after, text.toList = before ++ (occurrence.value ++ after) ∧
        occurrence.start < before.length ∧ before.length + occurrence.value.length < occurrence.stop) ∧
      picked.Pairwise (fun earlier later => earlier.stop ≤ later.start) ∧
      ∀ other : Occurrence, other.IsIn (ofLayout layout) text.toList →
        other ∈ picked ∨ ∃ earlier ∈ picked, earlier.start < other.start ∧ other.start < earlier.stop := by
  have hwords := ofWords_ofLayout hattributes hextensions
  obtain ⟨picked, hpicked, hvalues⟩ := exists_picks_scan hwords [] text.toList
  rw [List.nil_append, List.length_nil] at hpicked
  refine ⟨picked, hpicked, fun others hothers => hpicked.eq_of_picks hwords hothers, ?_,
    fun occurrence hmem => (hpicked.isIn hmem).slice, hpicked.pairwise,
    fun other hother => hpicked.covers hwords hother (Nat.zero_le _)⟩
  rw [references, ← hvalues, List.filter_map]
  congr 1
  refine List.filter_congr fun value _ => ?_
  rw [Function.comp_apply, layout.isReference_eq, decide_not]

/-- A declaration inside of one that fails is picked, a declaration inside of one that is picked is not. -/
theorem references_eq_picked_nested :
    ((∀ name ∈ Layout.referenceAttributes {}, IsWord name.toList) ∧
      ∀ extension ∈ Layout.extensions {}, IsWord extension.toList) ∧
    ∃ picked, Picks (ofLayout {}) "<a file='x url=\"b.jsp \n\" page=\"file='c.jsp'.jsp\"/>".toList 0 picked ∧
      ((picked.map Occurrence.value).filter fun value => ¬Layout.HoldsPlaceholder {} value).map String.ofList =
        ["b.jsp", "file='c.jsp'.jsp"] := by
  have hattributes : ∀ name ∈ Layout.referenceAttributes {}, IsWord name.toList := by decide +kernel
  have hextensions : ∀ extension ∈ Layout.extensions {}, IsWord extension.toList := by decide +kernel
  obtain ⟨picked, hpicked, -, hreferences, -⟩ := references_eq_picked hattributes hextensions
    "<a file='x url=\"b.jsp \n\" page=\"file='c.jsp'.jsp\"/>"
  have hvalues : references {} "<a file='x url=\"b.jsp \n\" page=\"file='c.jsp'.jsp\"/>" =
      ["b.jsp", "file='c.jsp'.jsp"] := by decide +kernel
  exact ⟨⟨hattributes, hextensions⟩, picked, hpicked, hreferences.symm.trans hvalues⟩

end PageGraph
