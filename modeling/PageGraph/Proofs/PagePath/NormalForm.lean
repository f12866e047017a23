import PageGraph.PagePath
import PageGraph.Proofs.Lists

/-!
# The normal form of a page path

A text is brought into normal form by putting its segments on a stack, so what comes of it is said by one invariant of
the stack: names, and below them the steps upwards that found nothing to take away (`Settled`). A name is put on every
stack as it is. This is why a path in normal form comes to itself, and why putting a path below another one only puts
further segments on the stack of the upper one.

* `IsName` : a segment that names something;
* `isNormal_ofText` : every text comes to a path in normal form;
* `ofText_toText`, `normalize_normalize` : a path in normal form comes to itself;
* `ofText_append` : a text below another one;
* `staysBelow` : segments that never climb above where they start, with what comes of them (`liesIn_join`).
-/

namespace PageGraph.PagePath

/-- A segment that names something: it is neither empty nor `.` nor `..`, and nothing in it separates segments. -/
structure IsName (segment : Segment) : Prop where
  nonempty : segment ≠ []
  notHere : segment ≠ here
  notUp : segment ≠ up
  noSeparator : ∀ c ∈ segment, isSeparator c = false

instance (segment : Segment) : Decidable (IsName segment) :=
  decidable_of_iff (segment ≠ [] ∧ segment ≠ here ∧ segment ≠ up ∧ segment.all (fun c => !isSeparator c) = true) (by
    rw [List.all_eq_true]
    exact ⟨fun h => ⟨h.1, h.2.1, h.2.2.1, fun c hc => by simpa using h.2.2.2 c hc⟩,
      fun h => ⟨h.nonempty, h.notHere, h.notUp, fun c hc => by simpa using h.noSeparator c hc⟩⟩)

/-- A stack as segments leave it: names, and below them steps upwards; from the root there are none. -/
def Settled (absolute : Bool) (stack : List Segment) : Prop :=
  ∃ names steps, stack = names ++ List.replicate steps up ∧ (∀ name ∈ names, IsName name) ∧
    (absolute = true → steps = 0)

/-- A path is in normal form if its segments make up a settled stack. -/
def IsNormal (path : PagePath) : Prop := Settled path.absolute path.segments.reverse

variable {absolute : Bool} {stack segments : List Segment} {segment : Segment} {path : PagePath} {text : List Char}

/-! ### One segment -/

/-- A name is put on every stack as it is. -/
theorem push_name (h : IsName segment) (absolute : Bool) (stack : List Segment) :
    push absolute stack segment = segment :: stack := by
  rw [push.eq_def, if_neg (by simp [h.nonempty, h.notHere]), if_neg h.notUp]

/-- Neither the empty segment nor `.` changes a stack. -/
theorem push_stay (h : segment = [] ∨ segment = here) (absolute : Bool) (stack : List Segment) :
    push absolute stack segment = stack := by
  rw [push.eq_def, if_pos h]

/-- A step upwards takes a name away, if that is not a drive on which nothing else stands. -/
theorem push_up_cons (h : segment ≠ up) (hdrive : stack ≠ [] ∨ isDrive segment = false) (absolute : Bool) :
    push absolute (segment :: stack) up = stack := by
  have hpinned : ¬(stack = [] ∧ isDrive segment = true) := by
    rintro ⟨hempty, hisDrive⟩
    rcases hdrive with hne | hno
    · exact hne hempty
    · rw [hno] at hisDrive
      cases hisDrive
  rw [push.eq_def, if_neg (by decide), if_pos rfl]
  dsimp only
  rw [if_neg h, if_neg hpinned]

theorem Settled.push_segment (h : Settled absolute stack) (hsegment : ∀ c ∈ segment, isSeparator c = false) :
    Settled absolute (push absolute stack segment) := by
  by_cases hstay : segment = [] ∨ segment = here
  · rwa [push_stay hstay]
  obtain ⟨names, steps, rfl, hnames, hroot⟩ := h
  by_cases hup : segment = up
  · subst hup
    rw [push.eq_def, if_neg hstay, if_pos rfl]
    cases names with
    | nil =>
      -- only steps upwards are there, so a further one joins them unless the path starts at the root
      cases steps with
      | zero =>
        cases absolute with
        | true => exact ⟨[], 0, rfl, hnames, fun _ => rfl⟩
        | false => exact ⟨[], 1, rfl, hnames, nofun⟩
      | succ steps =>
        cases absolute with
        | true => cases hroot rfl
        | false => exact ⟨[], steps + 2, rfl, hnames, nofun⟩
    | cons last below =>
      have hlast := hnames last List.mem_cons_self
      have hbelow : ∀ name ∈ below, IsName name := fun name hname => hnames name (List.mem_cons_of_mem last hname)
      dsimp only [List.cons_append]
      rw [if_neg hlast.notUp]
      split
      · exact ⟨last :: below, steps, rfl, hnames, hroot⟩
      · exact ⟨below, steps, rfl, hbelow, hroot⟩
  · have hname : IsName segment := ⟨fun h => hstay (.inl h), fun h => hstay (.inr h), hup, hsegment⟩
    rw [push_name hname]
    refine ⟨segment :: names, steps, rfl, fun name hmem => ?_, hroot⟩
    rcases List.mem_cons.1 hmem with rfl | hmem
    · exact hname
    · exact hnames name hmem

/-! ### Many segments -/

theorem Settled.foldl_push (h : Settled absolute stack)
    (hsegments : ∀ segment ∈ segments, ∀ c ∈ segment, isSeparator c = false) :
    Settled absolute (segments.foldl (push absolute) stack) := by
  induction segments generalizing stack with
  | nil => exact h
  | cons segment segments ih =>
    exact ih (h.push_segment (hsegments segment List.mem_cons_self))
      fun other hother => hsegments other (List.mem_cons_of_mem segment hother)

/-- Names are put on every stack as they are. -/
theorem foldl_push_names (h : ∀ segment ∈ segments, IsName segment) (absolute : Bool) (stack : List Segment) :
    segments.foldl (push absolute) stack = segments.reverse ++ stack := by
  induction segments generalizing stack with
  | nil => rfl
  | cons segment segments ih =>
    rw [List.foldl_cons, push_name (h segment List.mem_cons_self),
      ih fun other hother => h other (List.mem_cons_of_mem segment hother), List.reverse_cons, List.append_assoc,
      List.singleton_append]

/-- Steps upwards in front of a relative path stay there. -/
theorem foldl_push_steps (before steps : Nat) :
    (List.replicate steps up).foldl (push false) (List.replicate before up) = List.replicate (before + steps) up := by
  induction steps generalizing before with
  | zero => rfl
  | succ steps ih =>
    have hstep : push false (List.replicate before up) up = List.replicate (before + 1) up := by
      cases before <;> rfl
    rw [List.replicate_succ, List.foldl_cons, hstep, ih, Nat.add_right_comm, Nat.add_assoc]

/-- The segments of a path in normal form make up its stack. -/
theorem IsNormal.foldl_push (h : path.IsNormal) :
    path.segments.foldl (push path.absolute) [] = path.segments.reverse := by
  obtain ⟨names, steps, hstack, hnames, hroot⟩ := h
  have hnames' : ∀ name ∈ names.reverse, IsName name := fun name hname => hnames name (List.mem_reverse.1 hname)
  have hsegments : path.segments = List.replicate steps up ++ names.reverse := by
    rw [← List.reverse_reverse path.segments, hstack, List.reverse_append, List.reverse_replicate]
  rw [hstack, hsegments, List.foldl_append]
  cases habsolute : path.absolute with
  | true =>
    rw [hroot habsolute, List.replicate_zero, List.foldl_nil, foldl_push_names hnames', List.reverse_reverse]
  | false =>
    have hsteps := foldl_push_steps 0 steps
    rw [Nat.zero_add, List.replicate_zero] at hsteps
    rw [hsteps, foldl_push_names hnames', List.reverse_reverse]

/-! ### Texts -/

/-- Every text comes to a path in normal form. -/
theorem isNormal_ofText (text : List Char) : (ofText text).IsNormal := by
  rw [IsNormal, ofText, List.reverse_reverse]
  exact Settled.foldl_push ⟨[], 0, rfl, nofun, fun _ => rfl⟩ fun segment hsegment => forall_of_mem_splitOnP hsegment

/-- Names make up a path in normal form. -/
theorem isNormal_of_isName (absolute : Bool) (h : ∀ segment ∈ segments, IsName segment) : IsNormal ⟨absolute, segments⟩ :=
  ⟨segments.reverse, 0, (List.append_nil _).symm, fun name hname => h name (List.mem_reverse.1 hname), fun _ => rfl⟩

theorem IsNormal.noSeparator (h : path.IsNormal) (hsegment : segment ∈ path.segments) :
    ∀ c ∈ segment, isSeparator c = false := by
  obtain ⟨names, steps, hstack, hnames, -⟩ := h
  rcases List.mem_append.1 (hstack ▸ List.mem_reverse.2 hsegment) with hname | hstep
  · exact (hnames segment hname).noSeparator
  · obtain rfl := List.eq_of_mem_replicate hstep
    intro c hc
    rw [up, List.mem_cons, List.mem_singleton, or_self] at hc
    rw [hc]
    rfl

theorem IsNormal.nonempty (h : path.IsNormal) (hsegment : segment ∈ path.segments) : segment ≠ [] := by
  obtain ⟨names, steps, hstack, hnames, -⟩ := h
  rcases List.mem_append.1 (hstack ▸ List.mem_reverse.2 hsegment) with hname | hstep
  · exact (hnames segment hname).nonempty
  · obtain rfl := List.eq_of_mem_replicate hstep
    decide

/-- Nothing stands in front of a separator with which a text starts. -/
theorem pieces_cons {c : Char} (hc : isSeparator c = true) (text : List Char) : pieces (c :: text) = [] :: pieces text := by
  rw [pieces, List.splitOnP_cons_eq_if_modifyHead, if_pos hc, pieces]

/-- The segments of a path in normal form are read back from where they are written with slashes between them. -/
theorem IsNormal.pieces_intercalate (h : path.IsNormal) (hne : path.segments ≠ []) :
    pieces (['/'].intercalate path.segments) = path.segments :=
  splitOnP_intercalate (by decide) hne fun _ hsegment => h.noSeparator hsegment

/-- The segments of a path in normal form, written with slashes between them, make up its stack again. -/
theorem IsNormal.foldl_push_pieces (h : path.IsNormal) :
    (pieces (['/'].intercalate path.segments)).foldl (push path.absolute) [] = path.segments.reverse := by
  by_cases hne : path.segments = []
  · rw [hne]
    rfl
  · rw [h.pieces_intercalate hne, h.foldl_push]

/-- **A path in normal form comes to itself.** -/
theorem ofText_toText (h : path.IsNormal) : ofText path.toText = path := by
  have hstack := h.foldl_push_pieces
  obtain ⟨absolute, segments⟩ := path
  cases absolute with
  | true =>
    have hrooted : isRooted ('/' :: ['/'].intercalate segments) = true := rfl
    rw [toText, if_pos rfl, ofText, hrooted, pieces_cons (by decide), List.foldl_cons, push_stay (.inl rfl), hstack,
      List.reverse_reverse]
  | false =>
    rw [toText, if_neg Bool.false_ne_true]
    by_cases hne : segments = []
    · subst hne
      rfl
    · obtain ⟨first, rest, rfl⟩ := List.exists_cons_of_ne_nil hne
      -- the text starts as its first segment does, so not with a separator
      obtain ⟨c, segment, hfirst⟩ := List.exists_cons_of_ne_nil (h.nonempty List.mem_cons_self)
      have hrooted : isRooted (['/'].intercalate (first :: rest)) = false := by
        rw [intercalate_cons_eq_append_flatMap, hfirst]
        exact h.noSeparator List.mem_cons_self c (hfirst ▸ List.mem_cons_self)
      rw [if_neg hne, ofText, hrooted, hstack, List.reverse_reverse]

theorem toText_ne_nil (h : path.IsNormal) : path.toText ≠ [] := by
  rw [toText]
  split
  · exact List.cons_ne_nil _ _
  split
  · exact List.cons_ne_nil _ _
  · next hne =>
    obtain ⟨first, rest, hsegments⟩ := List.exists_cons_of_ne_nil hne
    rw [hsegments, intercalate_cons_eq_append_flatMap]
    exact List.append_ne_nil_of_left_ne_nil (h.nonempty (hsegments ▸ List.mem_cons_self)) _

/-- A text below another one: its segments are put on the stack of the upper one. -/
theorem ofText_append {upper : List Char} (hupper : upper ≠ []) (lower : List Char) :
    ofText (upper ++ '/' :: lower) =
      { absolute := isRooted upper
        segments := ((pieces lower).foldl (push (isRooted upper)) (ofText upper).segments.reverse).reverse } := by
  obtain ⟨c, rest, rfl⟩ := List.exists_cons_of_ne_nil hupper
  have hrooted : isRooted (c :: rest ++ '/' :: lower) = isRooted (c :: rest) := rfl
  rw [ofText, ofText, hrooted, pieces, List.splitOnP_append_cons _ _ (by decide), List.foldl_append,
    List.reverse_reverse]
  rfl

/-! ### Going down -/

/-- Whether segments that go on from so many names further down never climb above where those start. -/
def staysBelow : Nat → List Segment → Bool
  | _, [] => true
  | depth, segment :: rest =>
    if segment = [] ∨ segment = here then staysBelow depth rest
    else if segment = up then 0 < depth && staysBelow (depth - 1) rest
    else staysBelow (depth + 1) rest

theorem staysBelow_of_up_notMem (h : up ∉ segments) (depth : Nat) : staysBelow depth segments = true := by
  induction segments generalizing depth with
  | nil => rfl
  | cons segment segments ih =>
    have hsegment : segment ≠ up := fun heq => h (heq ▸ List.mem_cons_self)
    have hsegments : up ∉ segments := fun hmem => h (List.mem_cons_of_mem segment hmem)
    rw [staysBelow, if_neg hsegment]
    split
    · exact ih hsegments depth
    · exact ih hsegments (depth + 1)

/-- Segments that stay below a stack on which they are put leave it as it is. -/
theorem foldl_push_of_staysBelow {lower : List Segment} (h : staysBelow lower.length segments = true)
    (hlower : ∀ segment ∈ lower, segment ≠ up) (absolute : Bool) (stack : List Segment) :
    ∃ kept, segments.foldl (push absolute) (lower ++ stack) = kept ++ stack := by
  induction segments generalizing lower with
  | nil => exact ⟨lower, rfl⟩
  | cons segment segments ih =>
    rw [List.foldl_cons]
    rw [staysBelow] at h
    split at h
    · next hstay =>
      rw [push_stay hstay]
      exact ih h hlower
    · next hstay =>
      split at h
      · next hup =>
        subst hup
        rw [Bool.and_eq_true, decide_eq_true_eq] at h
        cases lower with
        | nil => exact absurd h.1 (Nat.lt_irrefl 0)
        | cons last lower =>
          have hrest : ∀ segment ∈ lower, segment ≠ up := fun other hother => hlower other (List.mem_cons_of_mem last hother)
          by_cases hpinned : lower ++ stack = [] ∧ isDrive last = true
          · -- a drive stays, and there is nothing below it that could be left
            obtain ⟨-, rfl⟩ := List.append_eq_nil_iff.1 hpinned.1
            exact ⟨_, (List.append_nil _).symm⟩
          · rw [List.cons_append, push_up_cons (hlower last List.mem_cons_self)]
            · exact ih h.2 hrest
            · rw [not_and_or, Bool.not_eq_true] at hpinned
              exact hpinned
      · next hup =>
        have hpush : push absolute (lower ++ stack) segment = (segment :: lower) ++ stack := by
          rw [push.eq_def, if_neg hstay, if_neg hup, List.cons_append]
        rw [hpush]
        refine ih h fun other hother => ?_
        rcases List.mem_cons.1 hother with rfl | hother
        · exact hup
        · exact hlower other hother

end PageGraph.PagePath

namespace PageGraph

open PagePath

/-- A path is that of a directory or lies below it: its segments go on where those of the directory end. -/
def LiesIn (directory path : String) : Prop :=
  (ofText directory.toList).absolute = (ofText path.toList).absolute ∧
    (ofText directory.toList).segments <+: (ofText path.toList).segments

instance (directory path : String) : Decidable (LiesIn directory path) := inferInstanceAs (Decidable (_ ∧ _))

/-- **Normalizing twice is normalizing once.** -/
theorem normalize_normalize (path : String) : normalize (normalize path) = normalize path := by
  rw [normalize, normalize, String.toList_ofList, ofText_toText (isNormal_ofText _)]

/-- Steps upwards go back over a name, and stay in front of a relative path. -/
example : normalize "/a/./b/../c//d.jsp" = "/a/c/d.jsp" ∧ normalize "../x/../y" = "../y" := by decide +kernel

theorem ofText_normalize (path : String) : ofText (normalize path).toList = ofText path.toList := by
  rw [normalize, String.toList_ofList, ofText_toText (isNormal_ofText _)]

theorem normalize_ne_empty (path : String) : normalize path ≠ "" := by
  intro hempty
  have htext : (ofText path.toList).toText = [] := by
    rw [← String.toList_ofList (l := (ofText path.toList).toText)]
    exact String.toList_eq_nil_iff.2 hempty
  exact toText_ne_nil (isNormal_ofText _) htext

/-- Separators in front of a text make no difference to the stack that its segments are put on. -/
theorem foldl_push_pieces_dropWhile (text : List Char) (absolute : Bool) (stack : List Segment) :
    (pieces (text.dropWhile isSeparator)).foldl (push absolute) stack = (pieces text).foldl (push absolute) stack := by
  induction text with
  | nil => rfl
  | cons c text ih =>
    by_cases hc : isSeparator c = true
    · rw [List.dropWhile_cons_of_pos hc, ih, pieces_cons hc, List.foldl_cons, push_stay (.inl rfl)]
    · rw [List.dropWhile_cons_of_neg hc]

/-- **Joining** puts the segments of a text on the stack of the directory. -/
theorem ofText_join {base : String} (hbase : base ≠ "") (relative : String) :
    ofText (join base relative).toList =
      { absolute := isRooted base.toList
        segments := ((pieces relative.toList).foldl (push (isRooted base.toList))
          (ofText base.toList).segments.reverse).reverse } := by
  have hempty : ¬base.isEmpty = true := fun h => hbase (String.isEmpty_iff.1 h)
  have hlist : base.toList ≠ [] := fun h => hbase (String.toList_eq_nil_iff.1 h)
  rw [join, if_neg hempty, ofText_normalize, String.toList_ofList, ofText_append hlist, foldl_push_pieces_dropWhile]

/-- **What is joined below a directory lies in it** unless it climbs. -/
theorem liesIn_join {base relative : String} (hbase : base ≠ "") (h : staysBelow 0 (pieces relative.toList) = true) :
    LiesIn base (join base relative) := by
  have hstays : staysBelow ([] : List Segment).length (pieces relative.toList) = true := h
  obtain ⟨kept, hkept⟩ := foldl_push_of_staysBelow hstays nofun (isRooted base.toList) (ofText base.toList).segments.reverse
  rw [List.nil_append] at hkept
  rw [LiesIn, ofText_join hbase, hkept, List.reverse_append, List.reverse_reverse]
  exact ⟨rfl, List.prefix_append _ _⟩

end PageGraph
