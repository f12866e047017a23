import PageGraph.Proofs.PagePath.NormalForm

/-!
# Canonical path texts

Which texts are paths in normal form is said here by the characters alone, with no stack and no normalizing: the root,
the relative path without segments, names below the root, or names with steps upwards in front of them. These are
exactly the texts that normalizing gives, and exactly the texts that it leaves as they are.

* `Canonical` : a text is spelled as a path in normal form;
* `canonical_iff_exists_isNormal` : it is the text of such a path;
* `IsNormal.pieces_toText`, `IsNormal.reverse_dropWhile_slash` : how a path from the root is read back;
* `head?_normalize_iff` : a path starts with a slash exactly if it did with a separator before;
* `normalize_canonical` : normalizing computes the one canonical form.
-/

namespace PageGraph.PagePath

/-- A text is spelled as a path in normal form. -/
inductive Canonical : List Char → Prop
  /-- The root. -/
  | root : Canonical ['/']
  /-- The relative path without segments. -/
  | here : Canonical ['.']
  /-- Names below the root. -/
  | absolute {names : List Segment} (nonempty : names ≠ []) (isName : ∀ name ∈ names, IsName name) :
    Canonical ('/' :: ['/'].intercalate names)
  /-- Names, with steps upwards in front of them only. -/
  | relative {steps : Nat} {names : List Segment} (nonempty : List.replicate steps up ++ names ≠ [])
    (isName : ∀ name ∈ names, IsName name) : Canonical (['/'].intercalate (List.replicate steps up ++ names))

variable {path : PagePath} {text : List Char}

/-- The segments of a path in normal form: steps upwards, none of them from the root, and names after them. -/
theorem isNormal_iff : path.IsNormal ↔ ∃ steps names, path.segments = List.replicate steps up ++ names ∧
    (∀ name ∈ names, IsName name) ∧ (path.absolute = true → steps = 0) := by
  constructor
  · rintro ⟨names, steps, hstack, hnames, hroot⟩
    refine ⟨steps, names.reverse, ?_, fun name hname => hnames name (List.mem_reverse.1 hname), hroot⟩
    rw [← List.reverse_reverse path.segments, hstack, List.reverse_append, List.reverse_replicate]
  · rintro ⟨steps, names, hsegments, hnames, hroot⟩
    refine ⟨names.reverse, steps, ?_, fun name hname => hnames name (List.mem_reverse.1 hname), hroot⟩
    rw [hsegments, List.reverse_append, List.reverse_replicate]

/-- **The canonical texts** are those of paths in normal form. -/
theorem canonical_iff_exists_isNormal : Canonical text ↔ ∃ path : PagePath, path.IsNormal ∧ path.toText = text := by
  constructor
  · intro h
    cases h with
    | root => exact ⟨⟨true, []⟩, isNormal_iff.2 ⟨0, [], rfl, nofun, fun _ => rfl⟩, rfl⟩
    | here => exact ⟨⟨false, []⟩, isNormal_iff.2 ⟨0, [], rfl, nofun, fun _ => rfl⟩, rfl⟩
    | @absolute names _ hnames => exact ⟨⟨true, names⟩, isNormal_iff.2 ⟨0, names, rfl, hnames, fun _ => rfl⟩, rfl⟩
    | @relative steps names hne hnames =>
      refine ⟨⟨false, List.replicate steps up ++ names⟩, isNormal_iff.2 ⟨steps, names, rfl, hnames, nofun⟩, ?_⟩
      simp only [toText, Bool.false_eq_true, if_false, if_neg hne]
  · rintro ⟨⟨absolute, segments⟩, hnormal, rfl⟩
    obtain ⟨steps, names, hsegments, hnames, hroot⟩ := isNormal_iff.1 hnormal
    dsimp only at hsegments hroot
    subst hsegments
    by_cases hempty : List.replicate steps up ++ names = []
    · rw [hempty]
      cases absolute with
      | true => exact .root
      | false => exact .here
    · cases absolute with
      | true =>
        obtain rfl := hroot rfl
        exact .absolute hempty hnames
      | false =>
        simp only [toText, Bool.false_eq_true, if_false, if_neg hempty]
        exact .relative hempty hnames

/-! ### Paths from the root -/

/-- A path in normal form from the root has names only. -/
theorem IsNormal.isName (h : path.IsNormal) (habsolute : path.absolute = true) :
    ∀ segment ∈ path.segments, IsName segment := by
  obtain ⟨steps, names, hsegments, hnames, hroot⟩ := isNormal_iff.1 h
  rw [hsegments, hroot habsolute]
  exact hnames

/-- A path from the root is a slash before each of its segments. -/
theorem toText_eq_flatMap (habsolute : path.absolute = true) (hne : path.segments ≠ []) :
    path.toText = path.segments.flatMap ('/' :: ·) := by
  rw [toText, if_pos habsolute, flatMap_cons_eq_intercalate '/' hne]

/-- Nothing stands before the first slash of a path from the root, and its segments after it. -/
theorem IsNormal.pieces_toText (h : path.IsNormal) (habsolute : path.absolute = true) (hne : path.segments ≠ []) :
    pieces path.toText = [] :: path.segments := by
  have hseparator : ∀ segment ∈ path.segments, ∀ c ∈ segment, isSeparator c = false :=
    fun _ hsegment => h.noSeparator hsegment
  rw [toText_eq_flatMap habsolute hne]
  exact splitOnP_flatMap_cons (by decide) hseparator (List.forall_mem_nil _)

/-- A path from the root does not end with a slash, unless it is the root. -/
theorem IsNormal.reverse_dropWhile_slash (h : path.IsNormal) (habsolute : path.absolute = true)
    (hne : path.segments ≠ []) : (path.toText.reverse.dropWhile (· = '/')).reverse = path.toText := by
  obtain ⟨before, last, hlast⟩ := path.segments.eq_nil_or_concat.resolve_left hne
  have hmem : last ∈ path.segments := by simp [hlast]
  obtain ⟨stem, c, hc⟩ := last.eq_nil_or_concat.resolve_left (h.nonempty hmem)
  have hslash : c ≠ '/' := by
    rintro rfl
    have hseparator := h.noSeparator hmem '/' (by simp [hc])
    revert hseparator
    decide
  have htext : path.toText = before.flatMap ('/' :: ·) ++ '/' :: stem ++ [c] := by
    rw [toText_eq_flatMap habsolute hne, hlast, hc]
    simp
  rw [htext, List.reverse_append, List.reverse_singleton, List.singleton_append,
    List.dropWhile_cons_of_neg (by simpa using hslash), List.reverse_cons, List.reverse_reverse]

end PageGraph.PagePath

namespace PageGraph

open PagePath

/-- What normalizing gives is canonical. -/
theorem canonical_toList_normalize (path : String) : Canonical (normalize path).toList := by
  rw [normalize, String.toList_ofList]
  exact canonical_iff_exists_isNormal.2 ⟨_, isNormal_ofText _, rfl⟩

/-- A path that normalizing leaves as it is is the text of what it is read as. -/
theorem toList_eq_toText {path : String} (h : normalize path = path) : path.toList = (ofText path.toList).toText := by
  have htext := congrArg String.toList h
  rw [normalize, String.toList_ofList] at htext
  exact htext.symm

/-- Paths in normal form are the same if they are read as the same. -/
theorem eq_of_ofText_eq {path other : String} (h : normalize path = path) (hother : normalize other = other)
    (heq : ofText path.toList = ofText other.toList) : path = other := by
  rw [← h, ← hother, normalize, normalize, heq]

/-- A canonical text is left as it is. -/
theorem normalize_eq_of_canonical {path : String} (h : Canonical path.toList) : normalize path = path := by
  obtain ⟨normal, hnormal, htext⟩ := canonical_iff_exists_isNormal.1 h
  rw [normalize, ← htext, ofText_toText hnormal, htext, String.ofList_toList]

/-- Normalizing keeps whether a path starts at the root. -/
theorem isRooted_normalize (path : String) : isRooted (normalize path).toList = isRooted path.toList :=
  congrArg PagePath.absolute (ofText_normalize path)

theorem isRooted_iff {text : List Char} : isRooted text = true ↔ text.head? = some '/' ∨ text.head? = some '\\' := by
  cases text with
  | nil => simp [isRooted]
  | cons c text => simp [isRooted, isSeparator]

/-- **A path starts with a slash** exactly if it did with a separator before it was normalized. -/
theorem head?_normalize_iff {path : String} :
    (normalize path).toList.head? = some '/' ↔ isRooted path.toList = true := by
  constructor
  · intro h
    rw [← isRooted_normalize, isRooted_iff]
    exact .inl h
  · intro h
    have habsolute : (ofText path.toList).absolute = true := h
    rw [normalize, String.toList_ofList, toText, if_pos habsolute, List.head?_cons]

/-- **Normalizing computes a canonical form**: doing it twice changes nothing, what it gives is canonical and starts with
a slash exactly if the path started with a separator, and every canonical path comes to itself. -/
theorem normalize_canonical (path : String) :
    normalize (normalize path) = normalize path ∧ Canonical (normalize path).toList ∧
      ((normalize path).toList.head? = some '/' ↔ path.toList.head? = some '/' ∨ path.toList.head? = some '\\') ∧
      ∀ other : String, Canonical other.toList → normalize other = other :=
  ⟨normalize_normalize path, canonical_toList_normalize path, head?_normalize_iff.trans isRooted_iff,
    fun _ => normalize_eq_of_canonical⟩

/-- Steps upwards that find nothing to take away stay in front, and a drive behind them is a name like any other. -/
theorem normalize_canonical_climbing :
    Canonical "../../C:/a".toList ∧ normalize "../../C:/a" = "../../C:/a" ∧
      normalize "..\\x/.././/../C:/D:\\../a" = "../../C:/a" ∧
      normalize (normalize "..\\x/.././/../C:/D:\\../a") = normalize "..\\x/.././/../C:/D:\\../a" := by
  have hnames : ∀ name ∈ [['C', ':'], ['a']], IsName name := by decide
  have hcanonical : Canonical "../../C:/a".toList := @Canonical.relative 2 [['C', ':'], ['a']] (by decide) hnames
  obtain ⟨htwice, -, -, hfixed⟩ := normalize_canonical "..\\x/.././/../C:/D:\\../a"
  exact ⟨hcanonical, hfixed "../../C:/a" hcanonical, by decide +kernel, htwice⟩

end PageGraph
