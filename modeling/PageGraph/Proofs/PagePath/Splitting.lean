import PageGraph.Record
import PageGraph.Proofs.PagePath.Joining
import Mathlib.Data.List.TakeWhile

/-!
# Splitting a path at its last slash

The directory and the name of a page are cut out of the text of its path, the one before the last slash and the other
after it. On a path in normal form these cuts are a step in the list of segments: the directory is the path without its
last segment, so it is in normal form again, and the name is that segment. Putting the name on the stack of the directory
gives the stack of the path, also where there is no segment to cut off, in front of the root and of the relative path
without segments.

* `PagePath.parent` : a path without its last segment;
* `directory_toText`, `baseName_toText` : what the two cuts are of a path in normal form;
* `join_directory_baseName` : joining undoes the split;
* `Record.ofPath_split` : a record that is made of a path is made of its own path again.
-/

namespace PageGraph.PagePath

variable {absolute : Bool} {stack before : List Segment} {last : Segment} {path : PagePath}

/-- A path without its last segment, if it has one. -/
def parent (path : PagePath) : PagePath := { path with segments := path.segments.dropLast }

theorem absolute_parent (path : PagePath) : path.parent.absolute = path.absolute := rfl

theorem segments_parent (path : PagePath) : path.parent.segments = path.segments.dropLast := rfl

theorem parent_of_segments (h : path.segments = before ++ [last]) : path.parent = ⟨path.absolute, before⟩ := by
  rw [parent, h, List.dropLast_concat]

theorem Settled.tail (h : Settled absolute stack) : Settled absolute stack.tail := by
  obtain ⟨names, steps, rfl, hnames, hroot⟩ := h
  cases names with
  | nil =>
    refine ⟨[], steps - 1, ?_, nofun, fun habsolute => ?_⟩
    · rw [List.nil_append, List.tail_replicate, List.nil_append]
    · rw [hroot habsolute]
  | cons last names => exact ⟨names, steps, rfl, fun name hname => hnames name (List.mem_cons_of_mem last hname), hroot⟩

theorem IsNormal.parent (h : path.IsNormal) : path.parent.IsNormal := by
  rw [IsNormal, PagePath.parent, ← List.tail_reverse]
  exact Settled.tail h

/-- The last segment goes onto the stack of the path above. -/
theorem IsNormal.push_last (h : path.IsNormal) (hsegments : path.segments = before ++ [last]) :
    push path.absolute before.reverse last = path.segments.reverse := by
  have hbefore := h.parent.foldl_push
  rw [parent_of_segments hsegments] at hbefore
  rw [← h.foldl_push, hsegments, List.foldl_append, hbefore, List.foldl_cons, List.foldl_nil]

end PageGraph.PagePath

namespace PageGraph

open PagePath

variable {path : PagePath} {stem last : List Char}

/-! ### Cutting a text -/

/-- Nothing is read past the last slash from the end of a text. -/
theorem reverse_of_slash (h : '/' ∉ last) :
    (stem ++ '/' :: last).reverse.takeWhile (· ≠ '/') = last.reverse ∧
      (stem ++ '/' :: last).reverse.dropWhile (· ≠ '/') = '/' :: stem.reverse := by
  have hlast : ∀ c ∈ last.reverse, decide (c ≠ '/') = true := by
    intro c hc
    exact decide_eq_true fun heq => h (heq ▸ List.mem_reverse.1 hc)
  rw [List.reverse_append, List.reverse_cons, List.append_assoc, List.singleton_append,
    List.takeWhile_append_of_pos hlast, List.dropWhile_append_of_pos hlast, List.takeWhile_cons_of_neg (by decide),
    List.dropWhile_cons_of_neg (by decide), List.append_nil]
  exact ⟨rfl, rfl⟩

/-- The whole of a text without a slash is read from its end. -/
theorem reverse_of_no_slash (h : '/' ∉ last) :
    last.reverse.takeWhile (· ≠ '/') = last.reverse ∧ last.reverse.dropWhile (· ≠ '/') = [] := by
  have hlast : ∀ c ∈ last.reverse, decide (c ≠ '/') = true := by
    intro c hc
    exact decide_eq_true fun heq => h (heq ▸ List.mem_reverse.1 hc)
  exact ⟨List.takeWhile_eq_self_iff.2 hlast, List.dropWhile_eq_nil_iff.2 hlast⟩

/-- The name is what comes after the last slash. -/
theorem baseName_of_slash (h : '/' ∉ last) : baseName (String.ofList (stem ++ '/' :: last)) = String.ofList last := by
  rw [baseName, String.toList_ofList, (reverse_of_slash h).1, List.reverse_reverse]

theorem baseName_of_no_slash (h : '/' ∉ last) : baseName (String.ofList last) = String.ofList last := by
  rw [baseName, String.toList_ofList, (reverse_of_no_slash h).1, List.reverse_reverse]

/-- The directory is what stands before the last slash, or the root if that is the first character. -/
theorem directory_of_slash (h : '/' ∉ last) :
    directory (String.ofList (stem ++ '/' :: last)) = String.ofList (if stem = [] then ['/'] else stem) := by
  rw [directory, String.toList_ofList, (reverse_of_slash h).2]
  cases hstem : stem.reverse with
  | nil =>
    rw [if_pos (List.reverse_eq_nil_iff.1 hstem)]
  | cons c rest =>
    have hne : stem ≠ [] := by
      rintro rfl
      cases hstem
    dsimp only
    rw [if_neg hne, ← hstem, List.reverse_reverse]

theorem directory_of_no_slash (h : '/' ∉ last) : directory (String.ofList last) = "." := by
  rw [directory, String.toList_ofList, (reverse_of_no_slash h).2]

/-! ### Cutting a path -/

theorem slash_notMem_of_mem_segments (h : path.IsNormal) {segment : Segment} (hsegment : segment ∈ path.segments) :
    '/' ∉ segment := by
  intro hslash
  have hseparator := h.noSeparator hsegment '/' hslash
  revert hseparator
  decide

/-- **The text of a path with a last segment**: this segment alone, or a slash before it, and before that the path above,
whose text is left out if it is the root. -/
theorem toText_cases (h : path.IsNormal) (hsegments : path.segments = before ++ [last]) :
    (path.toText = last ∧ path.parent = ⟨false, []⟩) ∨
      ∃ stem, path.toText = stem ++ '/' :: last ∧ path.parent.toText = if stem = [] then ['/'] else stem := by
  have hne : path.segments ≠ [] := by simp [hsegments]
  have hparent := parent_of_segments hsegments
  cases habsolute : path.absolute with
  | true =>
    refine .inr ⟨before.flatMap ('/' :: ·), ?_, ?_⟩
    · rw [toText_eq_flatMap habsolute hne, hsegments, List.flatMap_append, List.flatMap_singleton]
    · rw [hparent, habsolute]
      cases before with
      | nil => rfl
      | cons first rest => rw [toText_eq_flatMap rfl (List.cons_ne_nil first rest), if_neg (by simp)]
  | false =>
    have htext : path.toText = ['/'].intercalate path.segments := by
      rw [toText, habsolute, if_neg Bool.false_ne_true, if_neg hne]
    rw [hparent, habsolute, htext, hsegments]
    cases before with
    | nil => exact .inl ⟨List.intercalate_singleton, rfl⟩
    | cons first rest =>
      have htext : path.parent.toText = ['/'].intercalate (first :: rest) := by rw [hparent, habsolute]; rfl
      have hstem : ['/'].intercalate (first :: rest) ≠ [] := htext ▸ toText_ne_nil h.parent
      refine .inr ⟨['/'].intercalate (first :: rest), ?_, ?_⟩
      · simp [intercalate_cons_eq_append_flatMap]
      · rw [if_neg hstem]
        rfl

/-- **The name** of a path in normal form is its last segment. -/
theorem baseName_toText (h : path.IsNormal) (hsegments : path.segments = before ++ [last]) :
    baseName (String.ofList path.toText) = String.ofList last := by
  have hlast : '/' ∉ last := slash_notMem_of_mem_segments h (by simp [hsegments])
  obtain ⟨htext, -⟩ | ⟨stem, htext, -⟩ := toText_cases h hsegments
  · rw [htext, baseName_of_no_slash hlast]
  · rw [htext, baseName_of_slash hlast]

/-- The name of a path without segments is not put on a stack. -/
theorem baseName_toText_of_nil (hsegments : path.segments = []) :
    (baseName (String.ofList path.toText)).toList = [] ∨ (baseName (String.ofList path.toText)).toList = here := by
  obtain ⟨absolute, segments⟩ := path
  obtain rfl : segments = [] := hsegments
  cases absolute with
  | true => exact .inl (by decide +kernel)
  | false => exact .inr (by decide +kernel)

/-- **The directory** of a path in normal form is the path above. -/
theorem directory_toText (h : path.IsNormal) :
    directory (String.ofList path.toText) = String.ofList path.parent.toText := by
  obtain hnil | ⟨before, last, hsegments⟩ := path.segments.eq_nil_or_concat'
  · obtain ⟨absolute, segments⟩ := path
    obtain rfl : segments = [] := hnil
    cases absolute <;> decide +kernel
  · have hlast : '/' ∉ last := slash_notMem_of_mem_segments h (by simp [hsegments])
    obtain ⟨htext, hparent⟩ | ⟨stem, htext, hparent⟩ := toText_cases h hsegments
    · rw [htext, hparent, directory_of_no_slash hlast]
      rfl
    · rw [htext, hparent, directory_of_slash hlast]

/-- The name, put on the stack of the path above, gives the stack of the path. -/
theorem foldl_push_baseName (h : path.IsNormal) :
    (pieces (baseName (String.ofList path.toText)).toList).foldl (push path.absolute) path.parent.segments.reverse =
      path.segments.reverse := by
  obtain hnil | ⟨before, last, hsegments⟩ := path.segments.eq_nil_or_concat'
  · have hparent : path.parent.segments = [] := by rw [parent, hnil, List.dropLast_nil]
    rw [hparent, hnil]
    rcases baseName_toText_of_nil hnil with hname | hname
    · rw [hname]
      rfl
    · rw [hname]
      rfl
  · have hmem : last ∈ path.segments := by simp [hsegments]
    have hpieces : pieces last = [last] := List.splitOnP_eq_singleton (h.noSeparator hmem)
    rw [baseName_toText h hsegments, String.toList_ofList, hpieces, List.foldl_cons, List.foldl_nil,
      parent_of_segments hsegments, h.push_last hsegments]

/-! ### Splitting and joining -/

theorem directory_normalize (path : String) :
    directory (normalize path) = String.ofList (ofText path.toList).parent.toText :=
  directory_toText (isNormal_ofText path.toList)

/-- The directory of a page path is read as the path above. -/
theorem ofText_directory_normalize (path : String) :
    ofText (directory (normalize path)).toList = (ofText path.toList).parent := by
  rw [directory_normalize, String.toList_ofList, ofText_toText (isNormal_ofText path.toList).parent]

theorem absolute_ofText (text : List Char) : (ofText text).absolute = isRooted text := rfl

/-- The directory of a page path is in normal form. -/
theorem normalize_directory_normalize (path : String) :
    normalize (directory (normalize path)) = directory (normalize path) := by
  rw [normalize, ofText_directory_normalize, directory_normalize]

theorem directory_normalize_ne_empty (path : String) : directory (normalize path) ≠ "" := by
  rw [← normalize_directory_normalize]
  exact normalize_ne_empty _

/-- **Joining undoes the split** of a path in normal form. -/
theorem join_directory_baseName (path : String) :
    join (directory (normalize path)) (baseName (normalize path)) = normalize path := by
  have hrooted : isRooted (directory (normalize path)).toList = (ofText path.toList).absolute := by
    rw [← absolute_ofText, ofText_directory_normalize, absolute_parent]
  refine eq_of_ofText_eq (normalize_join _ _) (normalize_normalize path) ?_
  rw [ofText_join (directory_normalize_ne_empty path), ofText_directory_normalize, hrooted, ofText_normalize, normalize,
    foldl_push_baseName (isNormal_ofText path.toList), List.reverse_reverse]

namespace Record

theorem root_ofPath (path : String) : (ofPath path).root = directory (normalize path) := by rw [ofPath]

theorem name_ofPath (path : String) : (ofPath path).name = baseName (normalize path) := by rw [ofPath]

theorem path_ofPath (path : String) : (ofPath path).path = normalize path := by rw [ofPath]

/-- The directory of a page whose record is made of a path is the one that is recorded. -/
theorem pageRoot_ofPath (path : String) : (ofPath path).pageRoot = (ofPath path).root := by
  have hroot : ¬(directory (normalize path)).isEmpty = true := by
    simpa using directory_normalize_ne_empty path
  rw [pageRoot, root_ofPath, if_neg hroot, normalize_directory_normalize]

/-- A path has the record that its normal form has. -/
theorem ofPath_normalize (path : String) : ofPath (normalize path) = ofPath path := by
  rw [ofPath, ofPath, normalize_normalize]

/-- **A path is split into a directory and a name**, the path above and its last segment. Joining undoes the split, the
directory and the path are in normal form, the directory is the one that references are relative to, and the record of
the path that is recorded is the same record. -/
theorem ofPath_split (path : String) :
    let record := ofPath path
    join record.root record.name = record.path ∧
      normalize record.root = record.root ∧ normalize record.path = record.path ∧
      record.pageRoot = record.root ∧ ofPath record.path = record ∧
      (ofText record.root.toList).segments = (ofText path.toList).segments.dropLast ∧
      ∀ last ∈ (ofText path.toList).segments.getLast?, record.name.toList = last := by
  dsimp only
  rw [pageRoot_ofPath, root_ofPath, name_ofPath, path_ofPath, ofPath_normalize, ofText_directory_normalize, segments_parent]
  refine ⟨join_directory_baseName path, normalize_directory_normalize path, normalize_normalize path, rfl, rfl, rfl, ?_⟩
  intro last hlast
  obtain ⟨before, hsegments⟩ := List.getLast?_eq_some_iff.1 hlast
  rw [normalize, baseName_toText (isNormal_ofText path.toList) hsegments, String.toList_ofList]

/-- Steps upwards in front, two drives, and separators of both kinds. -/
theorem ofPath_split_climbing :
    ['D', ':'] ∈ (ofText "..\\.././C:\\x/..\\D:/".toList).segments.getLast? ∧
      ofPath "..\\.././C:\\x/..\\D:/" = { path := "../../C:/D:", root := "../../C:", name := "D:" } ∧
      join "../../C:" "D:" = "../../C:/D:" ∧
      (ofPath "..\\.././C:\\x/..\\D:/").pageRoot = (ofPath "..\\.././C:\\x/..\\D:/").root ∧
      (ofPath "..\\.././C:\\x/..\\D:/").name.toList = ['D', ':'] := by
  have hlast : ['D', ':'] ∈ (ofText "..\\.././C:\\x/..\\D:/".toList).segments.getLast? := by decide +kernel
  have hrecord : ofPath "..\\.././C:\\x/..\\D:/" = { path := "../../C:/D:", root := "../../C:", name := "D:" } := by
    decide +kernel
  obtain ⟨hjoin, -, -, hroot, -, -, hname⟩ := ofPath_split "..\\.././C:\\x/..\\D:/"
  rw [hrecord] at hjoin
  exact ⟨hlast, hrecord, hjoin, hroot, hname _ hlast⟩

/-- Where there is no segment to cut off, the root and the relative path without segments are their own directories. -/
example : ofPath "/.." = { path := "/", root := "/", name := "" } ∧
    ofPath "a\\.." = { path := ".", root := ".", name := "." } := by
  decide +kernel

end Record

end PageGraph
