import PageGraph.Proofs.Reference.Scan

/-!
# Template names in a page text

Two tests say which names are those of templates. A file is taken for one by the part of its name after the last dot,
and letter case does not count there. A quoted value is taken for one if it ends in one of the extensions, and there
letter case does count. So a name that a file may have is found between quotes exactly if it ends in an extension as
the layout spells it.

* `isTemplate_iff` : which file names are those of templates;
* `scan_quoted` : what is found in a text that holds one quoted name;
* `references_quoted_name` : both tests side by side;
* `references_otherCase` : the name of a template that is not found.
-/

namespace PageGraph

open Declarations

/-- A name ends in a dot and one of the extensions, letter by letter. -/
def Layout.EndsAsSpelled (layout : Layout) (name : List Char) : Prop :=
  ∃ extension ∈ layout.extensions, '.' :: extension.toList <:+ name

instance (layout : Layout) (name : List Char) : Decidable (layout.EndsAsSpelled name) :=
  inferInstanceAs (Decidable (∃ extension ∈ layout.extensions, _))

/-- **The names of templates**: what follows the last dot is one of the extensions, up to letter case. -/
theorem Layout.isTemplate_iff {layout : Layout} {name : String} :
    layout.isTemplate name = true ↔ ∃ extension ∈ layout.extensions, ∃ stem spelled,
      name.toList = stem ++ '.' :: spelled ∧ '.' ∉ spelled ∧ sameUpToCase extension.toList spelled = true := by
  rw [isTemplate]
  constructor
  · intro h
    split at h
    · next stem spelled hsplit =>
      obtain ⟨extension, hextension, hsame⟩ := List.any_eq_true.1 h
      obtain ⟨hname, hdot⟩ := Text.splitAtLast?_singleton_eq_some_iff.1 hsplit
      exact ⟨extension, hextension, stem, spelled, hname, hdot, hsame⟩
    · cases h
  · rintro ⟨extension, hextension, stem, spelled, hname, hdot, hsame⟩
    rw [Text.splitAtLast?_singleton_eq_some_iff.2 ⟨hname, hdot⟩]
    exact List.any_eq_true.2 ⟨extension, hextension, hsame⟩

/-- Only the last dot counts, and there may be nothing in front of it. -/
example : Layout.isTemplate {} "Header.v2.JSPF" = true ∧ Layout.isTemplate {} "page.jsp.bak" = false ∧
    Layout.isTemplate {} ".jsp" = true := by decide +kernel

namespace Declarations

/-- A text without quotes. -/
def Unquoted (text : List Char) : Prop := ∀ c ∈ text, c ≠ '"' ∧ c ≠ '\''

theorem Unquoted.notMem {text : List Char} (h : Unquoted text) {quote : Char} (hquote : quote = '"' ∨ quote = '\'') :
    quote ∉ text := by
  intro hmem
  rcases hquote with rfl | rfl
  · exact (h _ hmem).1 rfl
  · exact (h _ hmem).2 rfl

/-- A name that a quoted value can be as a whole: there are neither quotes nor line ends in it, and no blank at its
end. -/
structure Quotable (name : List Char) : Prop where
  unquoted : Unquoted name
  oneLine : ∀ c ∈ name, c ≠ '\r' ∧ c ≠ '\n'
  notBlank : ∀ c ∈ name.getLast?, Text.isBlank c = false

instance (text : List Char) : Decidable (Unquoted text) :=
  decidable_of_iff (text.all (fun c => c ≠ '"' ∧ c ≠ '\'') = true) (by
    simp only [Unquoted, List.all_eq_true, decide_eq_true_eq])

instance (name : List Char) : Decidable (Quotable name) :=
  decidable_of_iff (Unquoted name ∧ name.all (fun c => c ≠ '\r' ∧ c ≠ '\n') = true ∧
      name.getLast?.all (fun c => !Text.isBlank c) = true) (by
    simp only [List.all_eq_true, decide_eq_true_eq, Option.all_eq_true, Bool.not_eq_true']
    exact ⟨fun h => ⟨h.1, h.2.1, h.2.2⟩, fun h => ⟨h.unquoted, h.oneLine, h.notBlank⟩⟩)

/-- The sign behind an attribute is no quote. -/
theorem Unquoted.append_sign {text : List Char} (h : Unquoted text) : Unquoted (text ++ ['=']) := by
  intro c hc
  rcases List.mem_append.1 hc with hc | hc
  · exact h c hc
  · obtain rfl := List.mem_singleton.1 hc
    decide

variable {declarations : Declarations} {text front name value rest : List Char} {quote : Char}

/-! ### A scan of a short text -/

theorem declaration?_nil : declarations.declaration? [] = none := by
  cases h : declarations.declaration? [] with
  | none => rfl
  | some found => exact absurd (declarations.length_declaration?_lt h) (Nat.not_lt_zero _)

/-- Where no declaration starts anywhere in a text, the scan gives nothing. -/
theorem scan_eq_nil (h : ∀ suffix, suffix <:+ text → declarations.declaration? suffix = none) :
    declarations.scan text = [] := by
  induction text with
  | nil => exact scan_nil declaration?_nil
  | cons c text ih =>
    rw [scan_cons_of_eq_none (h (c :: text) List.suffix_rfl)]
    exact ih fun suffix hsuffix => h suffix (hsuffix.trans (List.suffix_cons c text))

/-! ### One quoted name -/

/-- Between the only two quotes of a text stands what was put there. -/
theorem eq_of_two_quotes {before middle behind : List Char} (hfront : quote ∉ front) (hname : quote ∉ name)
    (h : front ++ quote :: (name ++ [quote]) = before ++ quote :: (middle ++ quote :: behind)) :
    middle = name ∧ behind = [] := by
  have hcount := congrArg (List.count quote) h
  simp only [List.count_append, List.count_cons_self, List.count_nil, List.count_eq_zero_of_not_mem hfront,
    List.count_eq_zero_of_not_mem hname] at hcount
  have hother : ∀ {part : List Char}, quote ∉ part → ∀ c ∈ part, (c != quote) = true := by
    rintro part hpart c hc
    exact bne_iff_ne.2 fun heq => hpart (heq ▸ hc)
  have hbefore : quote ∉ before := List.count_eq_zero.1 (by omega)
  have hmiddle : quote ∉ middle := List.count_eq_zero.1 (by omega)
  obtain ⟨-, -, hbody⟩ := append_cons_inj_of_forall (hother hfront) (bne_self_eq_false quote) (hother hbefore)
    (bne_self_eq_false quote) h
  obtain ⟨hmiddle, -, hbehind⟩ := append_cons_inj_of_forall (hother hname) (bne_self_eq_false quote) (hother hmiddle)
    (bne_self_eq_false quote) hbody
  exact ⟨hmiddle.symm, hbehind.symm⟩

/-- **What is found in a text with one quoted name** is this name, and it ends in one of the extensions. -/
theorem eq_of_declaration?_eq_some (hquote : quote = '"' ∨ quote = '\'') (hfront : Unquoted front)
    (hname : Quotable name) (hsuffix : text <:+ front ++ quote :: (name ++ [quote]))
    (h : declarations.declaration? text = some (value, rest)) :
    value = name ∧ rest = [] ∧ ∃ extension ∈ declarations.extensions, '.' :: extension <:+ name := by
  obtain ⟨spelling, -, -, -, hopens, hblanks, ⟨stem, extension, hextension, hvalue, -⟩, rfl, rfl⟩ :=
    exists_parts_of_declaration?_eq_some h
  obtain ⟨before, hbefore⟩ := hsuffix
  have htext : front ++ quote :: (name ++ [quote]) =
      (before ++ (spelling.name ++ (spelling.beforeSign ++ '=' :: spelling.afterSign))) ++
        spelling.quote :: ((spelling.value ++ spelling.afterValue) ++ spelling.quote :: rest) := by
    rw [← hbefore]
    simp only [Spelling.text, List.append_assoc, List.cons_append, List.nil_append]
  have hsame : spelling.quote = quote := by
    have hmem : spelling.quote ∈ front ++ quote :: (name ++ [quote]) := by simp [htext]
    by_contra hne
    rcases List.mem_append.1 hmem with hmem | hmem
    · exact hfront.notMem hopens hmem
    · have hmem : spelling.quote ∈ name := by simpa [hne] using hmem
      exact hname.unquoted.notMem hopens hmem
  rw [hsame] at htext
  obtain ⟨hbody, hrest⟩ := eq_of_two_quotes (hfront.notMem hquote) (hname.unquoted.notMem hquote) htext
  -- blanks behind the value would end the name
  have hnone : spelling.afterValue = [] := by
    rcases spelling.afterValue.eq_nil_or_concat with hnil | ⟨blanks, c, hc⟩
    · exact hnil
    · have hblank := hblanks c (by simp [hc])
      rw [hname.notBlank c (by simp [← hbody, hc])] at hblank
      cases hblank
  rw [hnone, List.append_nil] at hbody
  exact ⟨hbody, hrest, extension, hextension, stem, by rw [← hbody, hvalue]⟩

/-- A quoted name that ends in one of the extensions is found. -/
theorem scan_quoted {label : List Char} (hlabel : label ∈ declarations.attributes)
    (hquote : quote = '"' ∨ quote = '\'') (hunquoted : Unquoted label) (hname : Quotable name)
    (hends : ∃ extension ∈ declarations.extensions, '.' :: extension <:+ name) :
    declarations.scan ((label ++ ['=']) ++ quote :: (name ++ [quote])) = [name] := by
  have hspelling : Spelling.IsDeclaration declarations ⟨label, [], [], quote, name, []⟩ := by
    refine ⟨hlabel, List.forall_mem_nil _, List.forall_mem_nil _, hquote, hends, fun c hc => ⟨?_, hname.oneLine c hc⟩,
      List.forall_mem_nil _⟩
    rintro rfl
    exact hname.unquoted.notMem hquote hc
  have htext : Spelling.text ⟨label, [], [], quote, name, []⟩ ++ [] = (label ++ ['=']) ++ quote :: (name ++ [quote]) := by
    simp [Spelling.text]
  obtain ⟨⟨value, rest⟩, hfound⟩ := Option.isSome_iff_exists.1 (isSome_declaration? hspelling [])
  rw [htext] at hfound
  obtain ⟨rfl, rfl, -⟩ := eq_of_declaration?_eq_some hquote hunquoted.append_sign hname List.suffix_rfl hfound
  rw [scan_of_eq_some hfound, scan_nil declaration?_nil]

/-- A quoted name that does not is not found, nor is anything else. -/
theorem scan_quoted_eq_nil {label : List Char} (hquote : quote = '"' ∨ quote = '\'') (hunquoted : Unquoted label)
    (hname : Quotable name) (hends : ¬∃ extension ∈ declarations.extensions, '.' :: extension <:+ name) :
    declarations.scan ((label ++ ['=']) ++ quote :: (name ++ [quote])) = [] := by
  refine scan_eq_nil fun suffix hsuffix => ?_
  cases hfound : declarations.declaration? suffix with
  | none => rfl
  | some found =>
    obtain ⟨-, -, hends'⟩ := eq_of_declaration?_eq_some hquote hunquoted.append_sign hname hsuffix hfound
    exact absurd hends' hends

end Declarations

/-- **What a file name and a quoted value need to be those of a template.** The walk takes a file for a template by the
part of its name after the last dot, up to letter case. Between quotes the same name is found exactly if it ends in an
extension letter by letter. -/
theorem references_quoted_name {layout : Layout} {label name : String} (hlabel : label ∈ layout.referenceAttributes)
    (hunquoted : Unquoted label.toList) (hname : Quotable name.toList)
    (hplaceholder : ¬layout.HoldsPlaceholder name.toList) :
    (layout.isTemplate name = true ↔ ∃ extension ∈ layout.extensions, ∃ stem spelled,
      name.toList = stem ++ '.' :: spelled ∧ '.' ∉ spelled ∧ Layout.sameUpToCase extension.toList spelled = true) ∧
    references layout (label ++ "=\"" ++ name ++ "\"") = if layout.EndsAsSpelled name.toList then [name] else [] := by
  refine ⟨Layout.isTemplate_iff, ?_⟩
  have htext : (label ++ "=\"" ++ name ++ "\"").toList =
      (label.toList ++ ['=']) ++ '"' :: (name.toList ++ ['"']) := by
    simp
  have hends : layout.EndsAsSpelled name.toList ↔
      ∃ extension ∈ (ofLayout layout).extensions, '.' :: extension <:+ name.toList := by
    simp [Layout.EndsAsSpelled, ofLayout]
  rw [references, htext]
  split
  · next h =>
    have hkept : layout.isReference name = true := by
      rw [← String.ofList_toList (s := name), layout.isReference_eq, decide_eq_false hplaceholder]
      rfl
    rw [scan_quoted (List.mem_map_of_mem hlabel) (.inl rfl) hunquoted hname (hends.1 h), List.map_singleton,
      String.ofList_toList, List.filter_cons_of_pos hkept, List.filter_nil]
  · next h => rw [scan_quoted_eq_nil (.inl rfl) hunquoted hname (mt hends.2 h), List.map_nil, List.filter_nil]

/-- A name may hold what looks like a declaration without quotes, and extensions before its end. -/
theorem references_quoted_name_blanks :
    ("file" ∈ Layout.referenceAttributes {} ∧ Unquoted "file".toList ∧ Quotable " url=x.JSP y.jsp z.jspf".toList ∧
      ¬Layout.HoldsPlaceholder {} " url=x.JSP y.jsp z.jspf".toList) ∧
    references {} ("file" ++ "=\"" ++ " url=x.JSP y.jsp z.jspf" ++ "\"") = [" url=x.JSP y.jsp z.jspf"] := by
  have hlabel : "file" ∈ Layout.referenceAttributes {} := by decide +kernel
  have hunquoted : Unquoted "file".toList := by decide +kernel
  have hname : Quotable " url=x.JSP y.jsp z.jspf".toList := by decide +kernel
  have hplaceholder : ¬Layout.HoldsPlaceholder {} " url=x.JSP y.jsp z.jspf".toList := by decide +kernel
  have hends : Layout.EndsAsSpelled {} " url=x.JSP y.jsp z.jspf".toList := by decide +kernel
  refine ⟨⟨hlabel, hunquoted, hname, hplaceholder⟩, ?_⟩
  rw [(references_quoted_name hlabel hunquoted hname hplaceholder).2, if_pos hends]

/-- **A template whose extension is in other letters** than the layout has is not found by its name. -/
theorem references_otherCase :
    ((∀ label ∈ Layout.referenceAttributes {}, IsWord label.toList) ∧ "file" ∈ Layout.referenceAttributes {} ∧
      Layout.isTemplate {} "D.JSP" = true ∧ Quotable "D.JSP".toList ∧ Text.trim "D.JSP".toList = "D.JSP".toList ∧
      ¬Layout.HoldsPlaceholder {} "D.JSP".toList) ∧
    references {} ("file" ++ "=\"" ++ "D.JSP" ++ "\"") ≠ ["D.JSP"] := by
  decide +kernel

end PageGraph
