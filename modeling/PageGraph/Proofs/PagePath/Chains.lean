import Mathlib.Data.List.Induction
import PageGraph.Proofs.PagePath.Joining

/-!
# Chains of joins

References are resolved by joins on top of joins: the content root, a directory below it, and there what is left of the
reference. It does not matter which join of a chain is done first, because segments do the same to every stack as what
comes of them on a stack of their own (`foldl_push_foldl_push`). Two things would stand against that: a drive is kept
only while it comes first, and a text from the root climbs as soon as it is put below another one.

* `foldl_push_push`, `foldl_push_foldl_push` : segments, put on top of a stack first or last;
* `foldl_push_pieces_join` : what was joined below a relative path does to a stack what its two parts do;
* `joined_in_parts` : what stands above may be normalized first, and of two joins either may be done first.
-/

namespace PageGraph.PagePath

variable {absolute : Bool} {stack segments : List Segment} {segment : Segment} {path : PagePath}

/-! ### Segments on a stack -/

/-- Nothing comes on a stack but what is put there. -/
theorem mem_of_mem_push {other : Segment} (h : other ∈ push absolute stack segment) : other = segment ∨ other ∈ stack := by
  rw [push.eq_def] at h
  grind

theorem mem_of_mem_foldl_push {other : Segment} (h : other ∈ segments.foldl (push absolute) []) : other ∈ segments := by
  induction segments using List.reverseRecOn with
  | nil => exact h
  | append_singleton segments segment ih =>
    rw [List.foldl_append, List.foldl_cons, List.foldl_nil] at h
    rcases mem_of_mem_push h with rfl | hmem
    · exact List.mem_append_right _ List.mem_cons_self
    · exact List.mem_append_left _ (ih hmem)

/-- **One segment** may be put on a stack before that is put on another one, or afterwards. -/
theorem foldl_push_push {upper : List Segment} (hupper : Settled false upper)
    (hdrive : ∀ other ∈ upper, isDrive other = false) (segment : Segment) (absolute : Bool) (stack : List Segment) :
    (push false upper segment).reverse.foldl (push absolute) stack =
      push absolute (upper.reverse.foldl (push absolute) stack) segment := by
  have hput : (segment :: upper).reverse.foldl (push absolute) stack =
      push absolute (upper.reverse.foldl (push absolute) stack) segment := by
    rw [List.reverse_cons, List.foldl_append, List.foldl_cons, List.foldl_nil]
  by_cases hstay : segment = [] ∨ segment = here
  · rw [push_stay hstay, push_stay hstay]
  by_cases hup : segment = up
  · subst hup
    obtain ⟨names, steps, rfl, hnames, -⟩ := hupper
    cases names with
    | nil =>
      -- the step upwards joins those that are there
      have hpush : push false ([] ++ List.replicate steps up) up = up :: ([] ++ List.replicate steps up) := by
        cases steps <;> rfl
      rw [hpush, hput]
    | cons last names =>
      -- it takes the last name away, which is no drive and so does not stay on any other stack either
      have hlast := hnames last List.mem_cons_self
      have hno := hdrive last List.mem_cons_self
      rw [List.cons_append, push_up_cons hlast.notUp (.inr hno), List.reverse_cons, List.foldl_append, List.foldl_cons,
        List.foldl_nil, push_name hlast, push_up_cons hlast.notUp (.inr hno)]
  · have hpush : push false upper segment = segment :: upper := by rw [push.eq_def, if_neg hstay, if_neg hup]
    rw [hpush, hput]

/-- **Segments without drives** do the same to every stack as what comes of them on a stack of their own. -/
theorem foldl_push_foldl_push (hseparator : ∀ segment ∈ segments, ∀ c ∈ segment, isSeparator c = false)
    (hdrive : ∀ segment ∈ segments, isDrive segment = false) (absolute : Bool) (stack : List Segment) :
    (segments.foldl (push false) []).reverse.foldl (push absolute) stack = segments.foldl (push absolute) stack := by
  induction segments using List.reverseRecOn with
  | nil => rfl
  | append_singleton segments segment ih =>
    have hmem : ∀ other ∈ segments, other ∈ segments ++ [segment] := fun other hother => List.mem_append_left _ hother
    have hseparator' : ∀ other ∈ segments, ∀ c ∈ other, isSeparator c = false :=
      fun other hother => hseparator other (hmem other hother)
    have hdrive' : ∀ other ∈ segments, isDrive other = false := fun other hother => hdrive other (hmem other hother)
    have hsettled : Settled false (segments.foldl (push false) []) :=
      Settled.foldl_push ⟨[], 0, rfl, nofun, nofun⟩ hseparator'
    rw [List.foldl_append, List.foldl_append, List.foldl_cons, List.foldl_nil, List.foldl_cons, List.foldl_nil,
      foldl_push_push hsettled fun other hother => hdrive' other (mem_of_mem_foldl_push hother), ih hseparator' hdrive']

/-- The text of a relative path does to a stack what its segments do. -/
theorem IsNormal.foldl_push_pieces_toText (h : path.IsNormal) (hrelative : path.absolute = false) (absolute : Bool)
    (stack : List Segment) :
    (pieces path.toText).foldl (push absolute) stack = path.segments.foldl (push absolute) stack := by
  rw [toText, hrelative, if_neg Bool.false_ne_true]
  split
  · next hempty =>
    rw [hempty]
    exact push_stay (.inr rfl) absolute stack
  · next hne => rw [h.pieces_intercalate hne]

end PageGraph.PagePath

namespace PageGraph

open PagePath

variable {a b c : String}

/-! ### Joins -/

/-- What is left of a text without the separators in front of it does not start at the root. -/
theorem isRooted_dropWhile (text : List Char) : isRooted (text.dropWhile isSeparator) = false := by
  have hhead := List.head?_dropWhile_not isSeparator text
  rw [isRooted]
  cases hdrop : (text.dropWhile isSeparator).head? with
  | none => rfl
  | some c =>
    rw [hdrop] at hhead
    exact hhead

/-- **Joining** puts the segments of a text on the stack of the directory, which is empty below the empty path. -/
theorem ofText_join_eq (base relative : String) :
    ofText (join base relative).toList =
      { absolute := isRooted base.toList
        segments := ((pieces relative.toList).foldl (push (isRooted base.toList))
          (ofText base.toList).segments.reverse).reverse } := by
  by_cases hbase : base = ""
  · subst hbase
    have hjoin : join "" relative = normalize (String.ofList (relative.toList.dropWhile isSeparator)) := rfl
    rw [hjoin, ofText_normalize, String.toList_ofList, ofText, isRooted_dropWhile, foldl_push_pieces_dropWhile]
    rfl
  · exact ofText_join hbase relative

theorem isRooted_join (base relative : String) : isRooted (join base relative).toList = isRooted base.toList :=
  congrArg PagePath.absolute (ofText_join_eq base relative)

/-- A relative path without drives that was joined does to a stack what its parts do. -/
theorem foldl_push_pieces_join (hb : isRooted b.toList = false)
    (hdrive : ∀ segment ∈ pieces b.toList ++ pieces c.toList, isDrive segment = false) (absolute : Bool)
    (stack : List Segment) :
    (pieces (join b c).toList).foldl (push absolute) stack =
      (pieces c.toList).foldl (push absolute) ((pieces b.toList).foldl (push absolute) stack) := by
  have hjoin : ofText (join b c).toList = ⟨false, ((pieces b.toList ++ pieces c.toList).foldl (push false) []).reverse⟩ := by
    rw [ofText_join_eq, hb, List.foldl_append, ofText, hb, List.reverse_reverse]
  have hseparator : ∀ segment ∈ pieces b.toList ++ pieces c.toList, ∀ d ∈ segment, isSeparator d = false := by
    intro segment hsegment
    rcases List.mem_append.1 hsegment with hmem | hmem
    · exact forall_of_mem_splitOnP hmem
    · exact forall_of_mem_splitOnP hmem
  rw [toList_eq_toText (normalize_join b c), (isNormal_ofText _).foldl_push_pieces_toText (by rw [hjoin]), hjoin,
    foldl_push_foldl_push hseparator hdrive, List.foldl_append]

/-- **Joins may be done in any order.** -/
theorem join_join (a : String) (hb : isRooted b.toList = false)
    (hdrive : ∀ segment ∈ pieces b.toList ++ pieces c.toList, isDrive segment = false) :
    join (join a b) c = join a (join b c) := by
  refine eq_of_ofText_eq (normalize_join _ c) (normalize_join a _) ?_
  rw [ofText_join_eq (join a b), ofText_join_eq a (join b c), isRooted_join, ofText_join_eq a b, List.reverse_reverse,
    foldl_push_pieces_join hb hdrive]

/-- **Normalizing and joining in parts**: what stands above may be normalized first, and of two joins the lower one may
be done first if the path in the middle is relative and no drive stands in the lower two. -/
theorem joined_in_parts :
    (∀ upper lower : String, upper ≠ "" →
      normalize (upper ++ "/" ++ lower) = normalize (normalize upper ++ "/" ++ lower)) ∧
    ∀ a b c : String, isRooted b.toList = false →
      (∀ segment ∈ pieces b.toList ++ pieces c.toList, isDrive segment = false) →
      join (join a b) c = join a (join b c) := by
  constructor
  · intro upper lower hupper
    exact (normalize_append_slash hupper lower).symm
  · intro a b c hb hdrive
    exact join_join a hb hdrive

/-- From a drive, with more steps upwards than there are names to take away. -/
theorem joined_in_parts_drive :
    ("C:\\x/../.." ≠ "" ∧ isRooted "..\\../y/".toList = false ∧
      ∀ segment ∈ pieces "..\\../y/".toList ++ pieces "/../z.jsp".toList, isDrive segment = false) ∧
    normalize ("C:\\x/../.." ++ "/" ++ "../y") = normalize (normalize "C:\\x/../.." ++ "/" ++ "../y") ∧
    join (join "C:\\x" "..\\../y/") "/../z.jsp" = join "C:\\x" (join "..\\../y/" "/../z.jsp") ∧
    join "..\\../y/" "/../z.jsp" = "../../z.jsp" ∧ join "C:\\x" "../../z.jsp" = "C:/z.jsp" := by
  have hupper : "C:\\x/../.." ≠ "" := by decide
  have hb : isRooted "..\\../y/".toList = false := by decide +kernel
  have hdrive : ∀ segment ∈ pieces "..\\../y/".toList ++ pieces "/../z.jsp".toList, isDrive segment = false := by
    decide +kernel
  exact ⟨⟨hupper, hb, hdrive⟩, joined_in_parts.1 "C:\\x/../.." "../y" hupper,
    joined_in_parts.2 "C:\\x" "..\\../y/" "/../z.jsp" hb hdrive, by decide +kernel, by decide +kernel⟩

/-- A drive stands against the steps upwards below it, but only while it comes first. -/
example : join (join "/w" "C:") ".." = "/w" ∧ join "/w" (join "C:" "..") = "/w/C:" := by decide +kernel

end PageGraph
