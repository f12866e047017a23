import PageGraph.Proofs.PagePath.Joining
import PageGraph.Proofs.Reference.Rules

/-!
# Relative references

From the directory of a page every other page can be written as a relative reference: steps upwards to a directory that
both have in common, and from there the names down to the page. Such a reference leads to that page as long as none of
the tokens of the layout occurs in it, since then only the last rule applies, and as long as the directory does not start
with a drive, since a step upwards does not take a drive away.

* `foldl_push_replicate_up` : steps upwards take away as many names;
* `relativeReference`, `Shares` : the reference from a directory to a page, by segments that both have in common;
* `Shares.join_relativeReference` : below the directory it is the page;
* `IsPlain` : no token of the layout occurs in a reference;
* `relative_resolve` : a relative reference leads to the page that it was written for.
-/

namespace PageGraph

open PagePath

namespace PagePath

/-! ### Steps upwards -/

/-- Steps upwards take away as many names, if no drive is the first segment. -/
theorem foldl_push_replicate_up {names below : List Segment} (hnames : ∀ name ∈ names, IsName name)
    (hdrive : ∀ first ∈ (names ++ below).getLast?, isDrive first = false) (absolute : Bool) :
    (List.replicate names.length up).foldl (push absolute) (names ++ below) = below := by
  induction names with
  | nil => rfl
  | cons last names ih =>
    have hlast : names ++ below ≠ [] ∨ isDrive last = false := by
      by_cases hempty : names ++ below = []
      · exact .inr (hdrive last (by simp [hempty]))
      · exact .inl hempty
    rw [List.length_cons, List.replicate_succ, List.foldl_cons, List.cons_append,
      push_up_cons (hnames last List.mem_cons_self).notUp hlast]
    refine ih (fun name hname => hnames name (List.mem_cons_of_mem last hname)) ?_
    intro first hfirst
    refine hdrive first ?_
    have hne : names ++ below ≠ [] := by
      intro hempty
      simp [hempty] at hfirst
    rwa [List.cons_append, List.getLast?_cons_of_ne_nil hne]

/-- Steps upwards in front of a text are segments of their own. -/
theorem pieces_ascents (count : Nat) (text : List Char) :
    pieces ((List.replicate count ['.', '.', '/']).flatten ++ text) = List.replicate count up ++ pieces text := by
  have hup : ∀ c ∈ up, isSeparator c = false := by simp [up, isSeparator]
  induction count with
  | zero => rfl
  | succ count ih =>
    rw [List.replicate_succ, List.replicate_succ, List.flatten_cons, List.append_assoc]
    show _ = up :: (List.replicate count up ++ pieces text)
    rw [← ih]
    exact List.splitOnP_append_cons_of_forall_mem hup '/' (by decide) _

end PagePath

/-! ### From one place to another -/

/-- The reference from a directory to a page: out of the segments of the directory that come after the common ones, and
down the segments of the page that come after them. -/
def relativeReference (common : List Segment) (directory page : String) : List Char :=
  (List.replicate ((ofText directory.toList).segments.length - common.length) ['.', '.', '/']).flatten ++
    ['/'].intercalate ((ofText page.toList).segments.drop common.length)

/-- A directory and a page below the root have these segments in common, and the page goes on behind them. The directory
does not start with a drive. -/
structure Shares (common : List Segment) (directory page : String) : Prop where
  directory_normal : normalize directory = directory
  page_normal : normalize page = page
  directory_rooted : isRooted directory.toList = true
  page_rooted : isRooted page.toList = true
  directory_prefix : common <+: (ofText directory.toList).segments
  page_prefix : common <+: (ofText page.toList).segments
  shorter : common.length < (ofText page.toList).segments.length
  noDrive : ∀ first ∈ (ofText directory.toList).segments.head?, isDrive first = false

variable {common : List Segment} {directory page : String}

/-- The segments of the reference between them: as many steps upwards as the directory has segments of its own, and the
segments that the page has of its own. -/
theorem Shares.pieces_relativeReference (h : Shares common directory page) :
    ∃ upper lower, (ofText directory.toList).segments = common ++ upper ∧
      (ofText page.toList).segments = common ++ lower ∧
      pieces (relativeReference common directory page) = List.replicate upper.length up ++ lower := by
  obtain ⟨upper, hupper⟩ := h.directory_prefix
  obtain ⟨lower, hlower⟩ := h.page_prefix
  refine ⟨upper, lower, hupper.symm, hlower.symm, ?_⟩
  have hne : lower ≠ [] := by
    rintro rfl
    have hshorter := h.shorter
    simp [← hlower] at hshorter
  have hnormal := isNormal_ofText page.toList
  have hseparator : ∀ segment ∈ lower, ∀ c ∈ segment, isSeparator c = false :=
    fun segment hsegment => hnormal.noSeparator (by simp [← hlower, hsegment])
  have hcount : (common ++ upper).length - common.length = upper.length := by simp
  rw [relativeReference, pieces_ascents, ← hupper, ← hlower, hcount, List.drop_left, pieces,
    splitOnP_intercalate (by decide) hne hseparator]

/-- The reference between them does not start at the root. -/
theorem Shares.isRooted_relativeReference (h : Shares common directory page) :
    isRooted (relativeReference common directory page) = false := by
  obtain ⟨upper, lower, -, hlower, hpieces⟩ := h.pieces_relativeReference
  cases htext : relativeReference common directory page with
  | nil => rfl
  | cons c text =>
    show isSeparator c = false
    rw [Bool.eq_false_iff]
    intro hc
    -- nothing would stand in front of the separator, but no segment is empty
    have hempty : [] ∈ List.replicate upper.length up ++ lower := by
      rw [← hpieces, htext, pieces_cons hc]
      exact List.mem_cons_self
    rcases List.mem_append.1 hempty with hmem | hmem
    · cases List.eq_of_mem_replicate hmem
    · exact (isNormal_ofText page.toList).nonempty (by simp [hlower, hmem]) rfl

/-- **Below the directory** the reference is the page. -/
theorem Shares.join_relativeReference (h : Shares common directory page) :
    join directory (String.ofList (relativeReference common directory page)) = page := by
  obtain ⟨upper, lower, hupper, hlower, hpieces⟩ := h.pieces_relativeReference
  have hup : ∀ name ∈ upper.reverse, IsName name := by
    intro name hname
    exact (isNormal_ofText directory.toList).isName h.directory_rooted name (by simp [hupper, List.mem_reverse.1 hname])
  have hdown : ∀ name ∈ lower, IsName name := by
    intro name hname
    exact (isNormal_ofText page.toList).isName h.page_rooted name (by simp [hlower, hname])
  have hdrive : ∀ first ∈ (upper.reverse ++ common.reverse).getLast?, isDrive first = false := by
    rw [← List.reverse_append, ← hupper, List.getLast?_reverse]
    exact h.noDrive
  refine eq_of_ofText_eq (normalize_join _ _) h.page_normal ?_
  have hstack : ((pieces (relativeReference common directory page)).foldl (push true)
      (ofText directory.toList).segments.reverse).reverse = (ofText page.toList).segments := by
    have hsteps := foldl_push_replicate_up hup hdrive true
    rw [List.length_reverse] at hsteps
    rw [hpieces, hupper, hlower, List.reverse_append, List.foldl_append, hsteps, foldl_push_names hdown,
      List.reverse_append, List.reverse_reverse, List.reverse_reverse]
  rw [ofText_join (ne_empty_of_isRooted h.directory_rooted), String.toList_ofList, h.directory_rooted, hstack]
  exact congrArg (PagePath.mk · _) h.page_rooted.symm

/-! ### Where it leads -/

/-- The texts that anchor a reference at another place than the directory of its page. -/
def Layout.tokens (layout : Layout) : List String :=
  layout.multiStoreToken :: layout.styleDirToken :: layout.storeDirToken :: layout.crossStoreMarkers

/-- A reference without blanks around it, in which no token of the layout occurs. -/
structure IsPlain (layout : Layout) (reference : List Char) : Prop where
  trimmed : Text.trim reference = reference
  noToken : ∀ token ∈ layout.tokens, token ≠ "" → ¬token.toList <:+: reference

instance (layout : Layout) (reference : List Char) : Decidable (IsPlain layout reference) :=
  decidable_of_iff (Text.trim reference = reference ∧
      ∀ token ∈ layout.tokens, token ≠ "" → ¬token.toList <:+: reference)
    ⟨fun ⟨htrim, htoken⟩ => ⟨htrim, htoken⟩, fun h => ⟨h.trimmed, h.noToken⟩⟩

theorem IsPlain.occursIn {layout : Layout} {reference : List Char} (h : IsPlain layout reference) {token : String}
    (htoken : token ∈ layout.tokens) : Text.occursIn token.toList reference = false := by
  rw [Text.occursIn_eq_false_iff]
  intro hne
  exact h.noToken token htoken (mt String.toList_eq_nil_iff.2 hne)

/-- **A relative reference leads to the page that it was written for**, and to no other one, for every content root. -/
theorem relative_resolve (resolver : Resolver) (h : Shares common directory page)
    (hplain : IsPlain resolver.layout (relativeReference common directory page)) :
    resolver.resolve directory (String.ofList (relativeReference common directory page)) = [page] := by
  have hmarker : resolver.layout.namesStore (relativeReference common directory page) = false := by
    refine Text.anyOccursIn_eq_false_iff.2 fun marker hmem => ?_
    exact hplain.noToken marker (by simp [Layout.tokens, hmem])
  have hanchor := Resolver.anchor_of_relative hmarker (hplain.occursIn (by simp [Layout.tokens]))
    (hplain.occursIn (by simp [Layout.tokens])) h.isRooted_relativeReference
  have hplace : resolver.place directory (.pageDir (relativeReference common directory page)) =
      join directory (String.ofList (relativeReference common directory page)) := rfl
  rw [Resolver.resolve, String.toList_ofList, hplain.trimmed,
    Resolver.candidates_eq_singleton (hplain.occursIn (by simp [Layout.tokens])), List.map_singleton, hanchor, hplace,
    h.join_relativeReference]

/-- A directory and a page in different directories below `/w`, past names that are spelled like a drive. -/
theorem shares_drive : Shares [['w']] "/w/C:/x" "/w/x/C:/..jsp" where
  directory_normal := by decide +kernel
  page_normal := by decide +kernel
  directory_rooted := by decide +kernel
  page_rooted := by decide +kernel
  directory_prefix := by decide +kernel
  page_prefix := by decide +kernel
  shorter := by decide +kernel
  noDrive := by decide +kernel

theorem relative_resolve_drive :
    (Shares [['w']] "/w/C:/x" "/w/x/C:/..jsp" ∧ IsPlain {} (relativeReference [['w']] "/w/C:/x" "/w/x/C:/..jsp")) ∧
    String.ofList (relativeReference [['w']] "/w/C:/x" "/w/x/C:/..jsp") = "../../x/C:/..jsp" ∧
    (Resolver.below "/r" {}).resolve "/w/C:/x"
      (String.ofList (relativeReference [['w']] "/w/C:/x" "/w/x/C:/..jsp")) = ["/w/x/C:/..jsp"] := by
  have hplain : IsPlain {} (relativeReference [['w']] "/w/C:/x" "/w/x/C:/..jsp") := by
    decide +kernel
  exact ⟨⟨shares_drive, hplain⟩, by decide +kernel, relative_resolve (Resolver.below "/r" {}) shares_drive hplain⟩

/-- A directory that starts with a drive is not left. -/
example : (Resolver.below "/r" {}).resolve "/C:" "../y.jsp" = ["/C:/y.jsp"] := by decide +kernel

end PageGraph
