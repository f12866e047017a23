import PageGraph.Proofs.PagePath.Canonical

/-!
# Ways

What segments do to a stack is told by the segments alone: they take some names away, as many as there are steps upwards
that go back over none of their own, and put others in their place. This `Way` tells the stack that is left wherever
something at the bottom keeps steps upwards from going on, as the root and a leading drive do. A relative path has no
such bottom, and a drive that is put at the root becomes another one.

* `Way.of` : the steps upwards and the names that segments amount to;
* `staysBelow_iff` : segments never climb if there are no such steps;
* `Floored.foldl_push` : the stack that segments leave;
* `liesIn_join_iff` : what is joined below a directory lies in it exactly if the names that it climbs out of are
  named again.
-/

namespace PageGraph.PagePath

/-- What segments amount to: steps upwards, and then names, innermost first. -/
structure Way where
  steps : Nat
  names : List Segment
  deriving DecidableEq, Repr

namespace Way

/-- Goes on by a segment. -/
def go (way : Way) (segment : Segment) : Way :=
  if segment = [] ∨ segment = here then way
  else if segment = up then
    match way.names with
    | [] => ⟨way.steps + 1, []⟩
    | _ :: names => ⟨way.steps, names⟩
  else ⟨way.steps, segment :: way.names⟩

/-- The way of some segments. -/
def of (segments : List Segment) : Way := segments.foldl go ⟨0, []⟩

/-- The stack that a way leaves of one in two parts, where the steps upwards do not reach into the lower part. -/
def stackOn (way : Way) (upper floor : List Segment) : List Segment := way.names ++ upper.drop way.steps ++ floor

end Way

/-- A stack in two parts, of which steps upwards take the upper one away and leave the lower one. -/
structure Floored (absolute : Bool) (upper floor : List Segment) : Prop where
  notUp : ∀ segment ∈ upper, segment ≠ up
  stays : push absolute floor up = floor
  taken : floor ≠ [] ∨ ∀ segment ∈ upper.getLast?, isDrive segment = false

variable {absolute : Bool} {upper floor segments : List Segment} {segment : Segment} {way : Way} {path : PagePath}

/-! ### One segment -/

namespace Way

theorem go_stay (h : segment = [] ∨ segment = here) (way : Way) : way.go segment = way := by
  rw [go, if_pos h]

theorem go_name (hstay : ¬(segment = [] ∨ segment = here)) (hup : segment ≠ up) (way : Way) :
    way.go segment = ⟨way.steps, segment :: way.names⟩ := by
  rw [go, if_neg hstay, if_neg hup]

/-- Names of a way are segments that it has taken, but for steps upwards. -/
theorem forall_names_go {property : Segment → Prop} (hnames : ∀ name ∈ way.names, name ≠ up ∧ property name)
    (hsegment : property segment) : ∀ name ∈ (way.go segment).names, name ≠ up ∧ property name := by
  by_cases hstay : segment = [] ∨ segment = here
  · rwa [go_stay hstay]
  by_cases hup : segment = up
  · subst hup
    obtain ⟨steps, names⟩ := way
    cases names with
    | nil => exact hnames
    | cons last names => exact fun name hname => hnames name (List.mem_cons_of_mem last hname)
  · rw [go_name hstay hup]
    intro name hname
    rcases List.mem_cons.1 hname with rfl | hname
    · exact ⟨hup, hsegment⟩
    · exact hnames name hname

end Way

/-- **A segment is put on the stack that a way leaves** as the way goes on by it. -/
theorem Floored.push_stackOn (h : Floored absolute upper floor)
    (hway : ∀ name ∈ way.names, name ≠ up ∧ (floor ≠ [] ∨ isDrive name = false)) (segment : Segment) :
    push absolute (way.stackOn upper floor) segment = (way.go segment).stackOn upper floor := by
  by_cases hstay : segment = [] ∨ segment = here
  · rw [push_stay hstay, Way.go_stay hstay]
  by_cases hup : segment = up
  · subst hup
    obtain ⟨steps, names⟩ := way
    cases names with
    | cons last names =>
      -- the last name of the way is taken away
      have hlast := hway last List.mem_cons_self
      exact push_up_cons hlast.1 (hlast.2.imp_left (List.append_ne_nil_of_right_ne_nil _)) absolute
    | nil =>
      have hgo : Way.go ⟨steps, []⟩ up = ⟨steps + 1, []⟩ := rfl
      rw [hgo, Way.stackOn, Way.stackOn, List.nil_append, List.nil_append, ← List.tail_drop]
      cases hdrop : upper.drop steps with
      | nil => exact h.stays
      | cons last rest =>
        -- the way has no names, so the last one of the upper part is taken away
        have hmem : last ∈ upper := List.mem_of_mem_drop (hdrop ▸ List.mem_cons_self)
        refine push_up_cons (h.notUp last hmem) ?_ absolute
        rcases h.taken with hfloor | hbottom
        · exact .inl (List.append_ne_nil_of_right_ne_nil _ hfloor)
        · cases rest with
          | cons next rest => exact .inl (List.cons_ne_nil _ _)
          | nil =>
            refine .inr (hbottom last ?_)
            rw [← List.take_append_drop steps upper, hdrop, List.getLast?_concat]
            rfl
  · rw [Way.go_name hstay hup, push.eq_def, if_neg hstay, if_neg hup]
    rfl

/-! ### Many segments -/

/-- A way leaves a stack as it was, below further names, if the names that it takes away are named again. -/
theorem Way.suffix_stackOn_iff : upper ++ floor <:+ way.stackOn upper floor ↔ upper.take way.steps <:+ way.names := by
  have htaken : upper.take way.steps ++ upper.drop way.steps <:+ way.names ++ upper.drop way.steps ↔
      upper.take way.steps <:+ way.names := List.suffix_append_self_iff
  rw [List.take_append_drop] at htaken
  rw [stackOn, List.suffix_append_self_iff, htaken]

theorem Floored.foldl_push_stackOn (h : Floored absolute upper floor)
    (hsegments : floor ≠ [] ∨ ∀ segment ∈ segments, isDrive segment = false)
    (hway : ∀ name ∈ way.names, name ≠ up ∧ (floor ≠ [] ∨ isDrive name = false)) :
    segments.foldl (push absolute) (way.stackOn upper floor) = (segments.foldl Way.go way).stackOn upper floor := by
  induction segments generalizing way with
  | nil => rfl
  | cons segment segments ih =>
    have hsegment := hsegments.imp_right fun hall => hall segment List.mem_cons_self
    have hrest := hsegments.imp_right fun hall other hother => hall other (List.mem_cons_of_mem segment hother)
    rw [List.foldl_cons, List.foldl_cons, h.push_stackOn hway, ih hrest (Way.forall_names_go hway hsegment)]

/-- **The stack that segments leave** is told by their way. -/
theorem Floored.foldl_push (h : Floored absolute upper floor)
    (hsegments : floor ≠ [] ∨ ∀ segment ∈ segments, isDrive segment = false) :
    segments.foldl (push absolute) (upper ++ floor) = (Way.of segments).stackOn upper floor := by
  have hway : ∀ name ∈ (Way.mk 0 []).names, name ≠ up ∧ (floor ≠ [] ∨ isDrive name = false) := by
    intro name hname
    cases hname
  exact h.foldl_push_stackOn hsegments hway

/-- The steps upwards of a way are never taken back. -/
theorem Way.steps_le_foldl_go (way : Way) (segments : List Segment) : way.steps ≤ (segments.foldl go way).steps := by
  induction segments generalizing way with
  | nil => exact Nat.le_refl _
  | cons segment segments ih =>
    refine Nat.le_trans ?_ (ih (way.go segment))
    rw [go]
    split_ifs
    · exact Nat.le_refl _
    · split
      · exact Nat.le_succ _
      · exact Nat.le_refl _
    · exact Nat.le_refl _

theorem staysBelow_iff_foldl_go (depth : Nat) (way : Way) :
    staysBelow (depth + way.names.length) segments = true ↔ (segments.foldl Way.go way).steps ≤ depth + way.steps := by
  induction segments generalizing depth way with
  | nil => exact iff_of_true rfl (Nat.le_add_left _ _)
  | cons segment segments ih =>
    rw [staysBelow, List.foldl_cons]
    by_cases hstay : segment = [] ∨ segment = here
    · rw [if_pos hstay, Way.go_stay hstay, ih]
    rw [if_neg hstay]
    by_cases hup : segment = up
    · subst hup
      rw [if_pos rfl, Bool.and_eq_true, decide_eq_true_eq]
      obtain ⟨steps, names⟩ := way
      cases names with
      | cons last names =>
        -- the step takes the last name away, on both sides
        have hlength : depth + (last :: names).length = depth + names.length + 1 := rfl
        rw [hlength, and_iff_right (Nat.succ_pos _), Nat.add_sub_cancel]
        exact ih depth ⟨steps, names⟩
      | nil =>
        cases depth with
        | zero =>
          have hsteps := Way.steps_le_foldl_go ⟨steps + 1, []⟩ segments
          have hmore : ¬(segments.foldl Way.go (Way.go ⟨steps, []⟩ up)).steps ≤ 0 + steps := by
            rw [Nat.zero_add]
            exact Nat.not_le.2 hsteps
          exact iff_of_false (fun h => absurd h.1 (Nat.lt_irrefl 0)) hmore
        | succ depth =>
          have hlength : depth + 1 + ([] : List Segment).length = depth + 1 := rfl
          have hsum : depth + 1 + steps = depth + (steps + 1) := by omega
          rw [hlength, and_iff_right (Nat.succ_pos _), Nat.add_sub_cancel, hsum]
          exact ih depth ⟨steps + 1, []⟩
    · rw [if_neg hup, Way.go_name hstay hup]
      exact ih depth ⟨way.steps, segment :: way.names⟩

/-- **Segments never climb** if their way has no steps upwards. -/
theorem staysBelow_iff : staysBelow 0 segments = true ↔ (Way.of segments).steps = 0 := by
  rw [← Nat.le_zero]
  exact staysBelow_iff_foldl_go 0 ⟨0, []⟩

/-! ### Paths -/

/-- The drive with which a path starts, if there is one. -/
def drive (path : PagePath) : List Segment :=
  match path.segments with
  | [] => []
  | first :: _ => if isDrive first then [first] else []

/-- The segments of a path that steps upwards take away, innermost first: those behind a drive. -/
def removable (path : PagePath) : List Segment := (path.segments.drop path.drive.length).reverse

/-- Segments that climb stop where a path starts: it is on a drive, or it starts at the root and none of them is a drive,
since a drive that comes to stand at the root stays there. -/
def Bounds (path : PagePath) (segments : List Segment) : Prop :=
  path.drive ≠ [] ∨ path.absolute = true ∧ ∀ segment ∈ segments, isDrive segment = false

instance (path : PagePath) (segments : List Segment) : Decidable (path.Bounds segments) :=
  inferInstanceAs (Decidable (_ ∨ _))

/-- A path is on no drive, or it is taken apart into its drive and what lies behind. -/
theorem drive_cases (path : PagePath) :
    (path.drive = [] ∧ path.removable = path.segments.reverse ∧
      ∀ first ∈ path.segments.head?, isDrive first = false) ∨
    ∃ first rest, path.segments = first :: rest ∧ isDrive first = true ∧ path.drive = [first] ∧
      path.removable = rest.reverse := by
  rw [removable, drive]
  cases path.segments with
  | nil => exact .inl ⟨rfl, rfl, nofun⟩
  | cons first rest =>
    cases hdrive : isDrive first with
    | true =>
      refine .inr ⟨first, rest, rfl, hdrive, ?_⟩
      dsimp only
      rw [if_pos hdrive]
      exact ⟨rfl, rfl⟩
    | false =>
      refine .inl ?_
      dsimp only
      rw [if_neg (Bool.eq_false_iff.1 hdrive)]
      exact ⟨rfl, rfl, fun other hother => Option.some.inj hother ▸ hdrive⟩

/-- The segments of a path are the parts of its stack. -/
theorem removable_append_drive (path : PagePath) : path.removable ++ path.drive = path.segments.reverse := by
  rcases path.drive_cases with ⟨hdrive, hremovable, -⟩ | ⟨first, rest, hsegments, -, hdrive, hremovable⟩
  · rw [hdrive, hremovable, List.append_nil]
  · rw [hdrive, hremovable, hsegments, List.reverse_cons]

/-- A path in normal form on a drive has names only, since no steps upwards stand in front of the drive. -/
theorem IsNormal.isName_of_drive (h : path.IsNormal) (hdrive : path.drive ≠ []) :
    ∀ segment ∈ path.segments, IsName segment := by
  obtain ⟨steps, names, hsegments, hnames, -⟩ := isNormal_iff.1 h
  cases steps with
  | zero =>
    rw [hsegments]
    exact hnames
  | succ steps =>
    refine absurd ?_ hdrive
    rw [drive, hsegments]
    rfl

/-- **The stack of a path**, of which steps upwards leave a leading drive. -/
theorem IsNormal.floored (h : path.IsNormal) (hbounds : path.drive ≠ [] ∨ path.absolute = true) :
    Floored path.absolute path.removable path.drive := by
  have hnames : ∀ segment ∈ path.segments, IsName segment := hbounds.elim h.isName_of_drive h.isName
  have hnotUp : ∀ segment ∈ path.removable, segment ≠ up := fun segment hsegment =>
    (hnames segment (List.mem_of_mem_drop (List.mem_reverse.1 hsegment))).notUp
  rcases path.drive_cases with ⟨hdrive, hremovable, hfirst⟩ | ⟨first, rest, hsegments, hisDrive, hdrive, -⟩
  · have habsolute : path.absolute = true := hbounds.resolve_left fun hne => hne hdrive
    refine ⟨hnotUp, by rw [hdrive, habsolute]; rfl, .inr ?_⟩
    rwa [hremovable, List.getLast?_reverse]
  · have hup : first ≠ up := (hnames first (hsegments ▸ List.mem_cons_self)).notUp
    refine ⟨hnotUp, ?_, .inl (hdrive ▸ List.cons_ne_nil _ _)⟩
    rw [hdrive, push.eq_def, if_neg (by decide), if_pos rfl]
    dsimp only
    rw [if_neg hup, if_pos ⟨rfl, hisDrive⟩]

/-- Steps upwards leave a drive, and the root. -/
example : normalize "C:\\x\\..\\..\\y" = "C:/y" ∧ normalize "/.." = "/" := by decide +kernel

end PageGraph.PagePath

namespace PageGraph

open PagePath

/-- **What is joined below a directory lies in it** exactly if the names that it climbs out of are named again. -/
theorem liesIn_join_iff {base relative : String} (hbase : base ≠ "")
    (hbounds : (ofText base.toList).Bounds (pieces relative.toList)) :
    LiesIn base (join base relative) ↔
      (ofText base.toList).removable.take (Way.of (pieces relative.toList)).steps <:+
        (Way.of (pieces relative.toList)).names := by
  have hfloored := (isNormal_ofText base.toList).floored (hbounds.imp_right And.left)
  have habsolute : (ofText base.toList).absolute = isRooted base.toList := rfl
  have hstack := hfloored.foldl_push (hbounds.imp_right And.right)
  rw [removable_append_drive, habsolute] at hstack
  rw [LiesIn, ofText_join hbase, hstack, habsolute, and_iff_right rfl, ← List.reverse_suffix, List.reverse_reverse,
    ← removable_append_drive, Way.suffix_stackOn_iff]

end PageGraph
