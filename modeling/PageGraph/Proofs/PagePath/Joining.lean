import PageGraph.Proofs.PagePath.Canonical

/-!
# What is joined below a directory

Joining two paths is normalizing one text, the two with a slash between them, and what stands before the slash may be
normalized first. So a chain of joins is one normalizing, and what is joined is always canonical. Whether it starts at
the root is decided by the directory alone.

* `join_eq_normalize`, `normalize_append_slash` : a join as one normalizing;
* `normalize_join` : what is joined is canonical;
* `head?_join`, `head?_directory` : a path below the root, and the directory of one, start at the root.
-/

namespace PageGraph

open PagePath

variable {base upper path : String}

theorem toList_append_slash (upper lower : String) :
    (upper ++ "/" ++ lower).toList = upper.toList ++ '/' :: lower.toList := by
  simp

/-- **What stands above may be normalized first.** -/
theorem normalize_append_slash (hupper : upper ≠ "") (lower : String) :
    normalize (normalize upper ++ "/" ++ lower) = normalize (upper ++ "/" ++ lower) := by
  have hlist : upper.toList ≠ [] := by simpa using hupper
  have hnormal : (normalize upper).toList ≠ [] := by simpa using normalize_ne_empty upper
  refine congrArg (fun path : PagePath => String.ofList path.toText) ?_
  rw [toList_append_slash, toList_append_slash, ofText_append hnormal, ofText_append hlist, isRooted_normalize,
    ofText_normalize]

/-- A name below a directory is its last segment. -/
theorem segments_append_name (hupper : upper ≠ "") {name : String} (hname : IsName name.toList) :
    (ofText (upper ++ "/" ++ name).toList).segments = (ofText upper.toList).segments ++ [name.toList] := by
  have hlist : upper.toList ≠ [] := by simpa using hupper
  have hpieces : pieces name.toList = [name.toList] := List.splitOnP_eq_singleton hname.noSeparator
  rw [toList_append_slash, ofText_append hlist, hpieces, List.foldl_cons, List.foldl_nil, push_name hname,
    List.reverse_cons, List.reverse_reverse]

/-- **Joining** is normalizing both texts with a slash between them. -/
theorem join_eq_normalize (hbase : base ≠ "") (relative : String) :
    join base relative = normalize (base ++ "/" ++ relative) := by
  have hlist : base.toList ≠ [] := by simpa using hbase
  have hempty : ¬base.isEmpty = true := by simpa using hbase
  rw [join, if_neg hempty, normalize, normalize, String.toList_ofList, toList_append_slash, ofText_append hlist,
    ofText_append hlist, foldl_push_pieces_dropWhile]

/-- What is joined is in normal form. -/
theorem normalize_join (base relative : String) : normalize (join base relative) = join base relative := by
  rw [join]
  split
  · exact normalize_normalize _
  · exact normalize_normalize _

/-! ### The root -/

theorem ne_empty_of_isRooted (h : isRooted path.toList = true) : path ≠ "" := by
  rintro rfl
  cases h

/-- A path starts at the root if the directory above it does. -/
theorem isRooted_append_slash (hupper : upper ≠ "") (lower : String) :
    isRooted (upper ++ "/" ++ lower).toList = isRooted upper.toList := by
  obtain ⟨c, rest, hlist⟩ := List.exists_cons_of_ne_nil (mt String.toList_eq_nil_iff.1 hupper)
  rw [toList_append_slash, hlist]
  rfl

/-- What is joined below a path from the root starts at the root. -/
theorem head?_join (h : isRooted base.toList = true) (relative : String) :
    (join base relative).toList.head? = some '/' := by
  have hbase := ne_empty_of_isRooted h
  rw [join_eq_normalize hbase, head?_normalize_iff, isRooted_append_slash hbase]
  exact h

/-- The directory of a path from the root starts at the root. -/
theorem head?_directory (h : path.toList.head? = some '/') : (directory path).toList.head? = some '/' := by
  obtain ⟨rest, hlist⟩ := List.head?_eq_some_iff.1 h
  have hdrop : ∃ before, path.toList.reverse.dropWhile (· ≠ '/') = before ++ ['/'] := by
    rw [hlist, List.reverse_cons, List.dropWhile_append]
    split
    · exact ⟨[], rfl⟩
    · exact ⟨_, rfl⟩
  obtain ⟨before, hbefore⟩ := hdrop
  rw [directory, hbefore]
  -- the slash that the path starts with comes last here, and all but the first character are kept
  cases before with
  | nil => rfl
  | cons c before =>
    cases before <;> simp

end PageGraph
