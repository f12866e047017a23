import PageGraph.Proofs.Reference.Scan

/-!
# A tag on a new line

A page text may be scanned in parts. Where a line ends and the next one starts with a tag, no declaration goes across:
blanks are the only place where a declaration may hold the line end, and behind blanks it goes on with the sign or with
a quote, never with `<`. So it makes no difference to a step of the scan what comes behind that place, even if the
quotes or the attribute before it are unfinished.

Every function that looks for a part of a declaration is shown to do with the longer text what it does with the shorter
one, and to leave more behind (`followedBy`). The line end is needed for that as well as the tag: an attribute or an
extension holds none, so they end before it.

* `declaration?_append_tag` : what starts a text is found without regard to what follows it;
* `scan_append_tag` : the scan goes through both parts on their own;
* `extract_append_tag` : so do the references of a page.
-/

namespace PageGraph.Declarations

variable {declarations : Declarations} {quote : Char}

/-- No line end is in an attribute or an extension. -/
structure OneLine (declarations : Declarations) : Prop where
  attributes : ∀ name ∈ declarations.attributes, '\n' ∉ name
  extensions : ∀ extension ∈ declarations.extensions, '\n' ∉ extension

/-- What is found, with more text behind it. -/
def followedBy (tail : List Char) (found : List Char × List Char) : List Char × List Char :=
  (found.1, found.2 ++ tail)

/-! ### Parts of a declaration -/

/-- Neither a line end nor what follows it is needed to find a word. -/
theorem after?_append_line {word : List Char} (h : '\n' ∉ word) (text behind : List Char) :
    Text.after? word (text ++ '\n' :: behind) = (Text.after? word text).map (· ++ '\n' :: behind) := by
  by_cases hprefix : word <+: text
  · obtain ⟨rest, rfl⟩ := hprefix
    rw [List.append_assoc, after?_append, after?_append]
    rfl
  · have hlonger : ¬word <+: text ++ '\n' :: behind := by rwa [prefix_append_cons_iff h]
    rw [← List.isPrefixOf_iff_prefix] at hprefix hlonger
    rw [Text.after?, Text.after?, if_neg hprefix, if_neg hlonger]
    rfl

/-- Blanks go up to the tag if nothing else comes before it. -/
theorem dropWhile_append_tag (text behind : List Char) :
    (text ++ '\n' :: '<' :: behind).dropWhile Text.isBlank =
      if text.dropWhile Text.isBlank = [] then '<' :: behind
      else text.dropWhile Text.isBlank ++ '\n' :: '<' :: behind := by
  have htag : ('\n' :: '<' :: behind).dropWhile Text.isBlank = '<' :: behind := by
    rw [List.dropWhile_cons_of_pos (by decide), List.dropWhile_cons_of_neg (by decide)]
  simp only [List.dropWhile_append, List.isEmpty_iff, htag]

/-- A tag is not the character that is looked for behind blanks. -/
theorem afterBlanks?_append_tag {c : Char} (hc : c ≠ '<') (text behind : List Char) :
    afterBlanks? c (text ++ '\n' :: '<' :: behind) = (afterBlanks? c text).map (· ++ '\n' :: '<' :: behind) := by
  rw [afterBlanks?, afterBlanks?, dropWhile_append_tag]
  cases hdrop : text.dropWhile Text.isBlank with
  | nil => simp [Ne.symm hc]
  | cons d rest =>
    by_cases hd : d = c
    · simp [hd]
    · simp [hd]

theorem ne_tag_of_quote (h : quote = '"' ∨ quote = '\'') : quote ≠ '<' := by
  rcases h with rfl | rfl <;> decide

theorem ending?_append_tag (hline : declarations.OneLine) (hquote : quote = '"' ∨ quote = '\'') (text behind : List Char) :
    declarations.ending? quote (text ++ '\n' :: '<' :: behind) =
      (declarations.ending? quote text).map (followedBy ('\n' :: '<' :: behind)) := by
  rw [ending?, ending?, List.map_findSome?]
  refine findSome?_congr fun extension hextension => ?_
  have hword : '\n' ∉ '.' :: extension := by
    simp [hline.extensions extension hextension]
  rw [after?_append_line hword, Function.comp_apply]
  cases Text.after? ('.' :: extension) text with
  | none => rfl
  | some rest =>
    rw [Option.map_some, Option.bind_some, Option.bind_some, afterBlanks?_append_tag (ne_tag_of_quote hquote)]
    cases afterBlanks? quote rest <;> rfl

/-- A value does not go across a line end. -/
theorem value?_append_tag (hline : declarations.OneLine) (hquote : quote = '"' ∨ quote = '\'') (text behind : List Char) :
    declarations.value? quote (text ++ '\n' :: '<' :: behind) =
      (declarations.value? quote text).map (followedBy ('\n' :: '<' :: behind)) := by
  induction text with
  | nil =>
    have hending := ending?_append_tag hline hquote [] behind
    have hnone : declarations.ending? quote [] = none := by
      cases h : declarations.ending? quote [] with
      | none => rfl
      | some found => exact absurd (declarations.length_ending?_lt h) (Nat.not_lt_zero _)
    rw [hnone, List.nil_append] at hending
    simp [value?, hending]
  | cons c text ih =>
    have hending := ending?_append_tag hline hquote (c :: text) behind
    rw [List.cons_append] at hending
    rw [List.cons_append, value?, value?, hending]
    cases declarations.ending? quote (c :: text) with
    | some found => rfl
    | none =>
      rw [Option.map_none]
      dsimp only
      split
      · rfl
      · rw [ih, Option.map_map, Option.map_map]
        rfl

theorem quoted?_append_tag (hline : declarations.OneLine) (text behind : List Char) :
    declarations.quoted? ((text ++ '\n' :: '<' :: behind).dropWhile Text.isBlank) =
      (declarations.quoted? (text.dropWhile Text.isBlank)).map (followedBy ('\n' :: '<' :: behind)) := by
  rw [dropWhile_append_tag]
  cases text.dropWhile Text.isBlank with
  | nil => rfl
  | cons c rest =>
    rw [if_neg (List.cons_ne_nil _ _), List.cons_append, quoted?, quoted?]
    split
    · next hquote => exact value?_append_tag hline hquote rest behind
    · rfl

/-! ### A declaration, and all of them -/

/-- **A declaration does not go across** a line end and the start of a tag. -/
theorem declaration?_append_tag (hline : declarations.OneLine) (text behind : List Char) :
    declarations.declaration? (text ++ '\n' :: '<' :: behind) =
      (declarations.declaration? text).map (followedBy ('\n' :: '<' :: behind)) := by
  rw [declaration?, declaration?, List.map_findSome?]
  refine findSome?_congr fun name hname => ?_
  rw [after?_append_line (hline.attributes name hname), Function.comp_apply]
  cases Text.after? name text with
  | none => rfl
  | some rest =>
    rw [Option.map_some, Option.bind_some, Option.bind_some, afterBlanks?_append_tag (by decide)]
    cases afterBlanks? '=' rest with
    | none => rfl
    | some rest => exact quoted?_append_tag hline rest behind

/-- **The scan goes through both parts on their own.** -/
theorem scan_append_tag (hline : declarations.OneLine) (text behind : List Char) :
    declarations.scan (text ++ '\n' :: '<' :: behind) = declarations.scan text ++ declarations.scan ('<' :: behind) := by
  induction text using scan.induct declarations with
  | case1 text value rest h ih =>
    have hlonger := declaration?_append_tag hline text behind
    rw [h] at hlonger
    rw [scan_of_eq_some hlonger, scan_of_eq_some h, List.cons_append]
    exact congrArg (value :: ·) ih
  | case2 h =>
    -- the text is at its end, and the line end is passed
    have hlonger := declaration?_append_tag hline [] behind
    rw [h, List.nil_append] at hlonger
    rw [List.nil_append, scan_cons_of_eq_none hlonger, scan_nil h, List.nil_append]
  | case3 c text h ih =>
    have hlonger := declaration?_append_tag hline (c :: text) behind
    rw [h, List.cons_append] at hlonger
    rw [List.cons_append, scan_cons_of_eq_none hlonger, scan_cons_of_eq_none h, ih]

end PageGraph.Declarations

namespace PageGraph

open Declarations

theorem oneLine_ofLayout {layout : Layout} (hattributes : ∀ name ∈ layout.referenceAttributes, '\n' ∉ name.toList)
    (hextensions : ∀ extension ∈ layout.extensions, '\n' ∉ extension.toList) : (ofLayout layout).OneLine where
  attributes := List.forall_mem_map.2 hattributes
  extensions := List.forall_mem_map.2 hextensions

/-- **Extraction is local.** What a page text references up to the end of a line, and what it references from a tag on
that starts the next line, is all that it references, in this order. Of attributes and extensions no more is asked than
that they hold no line end. -/
theorem extract_append_tag {resolver : Resolver}
    (hattributes : ∀ name ∈ resolver.layout.referenceAttributes, '\n' ∉ name.toList)
    (hextensions : ∀ extension ∈ resolver.layout.extensions, '\n' ∉ extension.toList) (root upper : String)
    {lower : String} (htag : lower.toList.head? = some '<') :
    references resolver.layout (upper ++ "\n" ++ lower) =
      references resolver.layout upper ++ references resolver.layout lower ∧
    resolver.extract root (upper ++ "\n" ++ lower) = resolver.extract root upper ++ resolver.extract root lower := by
  obtain ⟨behind, hlower⟩ := List.head?_eq_some_iff.1 htag
  have htext : (upper ++ "\n" ++ lower).toList = upper.toList ++ '\n' :: '<' :: behind := by
    simp [hlower]
  have hreferences : references resolver.layout (upper ++ "\n" ++ lower) =
      references resolver.layout upper ++ references resolver.layout lower := by
    rw [references, references, references, htext, hlower,
      scan_append_tag (oneLine_ofLayout hattributes hextensions), List.map_append, List.filter_append]
  refine ⟨hreferences, ?_⟩
  rw [Resolver.extract, Resolver.extract, Resolver.extract, hreferences, List.flatMap_append]

/-- A text that ends inside a value, with an attribute that waits for one. -/
def unfinishedText : String := "<a url='b.jsp'/> page=\"x.jsp file= \r\n"

/-- A tag that starts with quotes. -/
def quotedTag : String := "<'c.jsp'\" url='d.jsp'/>"

theorem extract_append_tag_unfinished :
    ((∀ name ∈ Layout.referenceAttributes {}, '\n' ∉ name.toList) ∧
      (∀ extension ∈ Layout.extensions {}, '\n' ∉ extension.toList) ∧ quotedTag.toList.head? = some '<') ∧
    references {} (unfinishedText ++ "\n" ++ quotedTag) = references {} unfinishedText ++ references {} quotedTag ∧
    (Resolver.below "/r" {}).extract "/w" (unfinishedText ++ "\n" ++ quotedTag) =
      (Resolver.below "/r" {}).extract "/w" unfinishedText ++ (Resolver.below "/r" {}).extract "/w" quotedTag ∧
    references {} unfinishedText = ["b.jsp"] ∧ references {} quotedTag = ["d.jsp"] := by
  have hattributes : ∀ name ∈ Layout.referenceAttributes {}, '\n' ∉ name.toList := by decide +kernel
  have hextensions : ∀ extension ∈ Layout.extensions {}, '\n' ∉ extension.toList := by decide +kernel
  have htag : quotedTag.toList.head? = some '<' := by decide +kernel
  obtain ⟨hreferences, hextract⟩ :=
    @extract_append_tag (Resolver.below "/r" {}) hattributes hextensions "/w" unfinishedText quotedTag htag
  exact ⟨⟨hattributes, hextensions, htag⟩, hreferences, hextract, by decide +kernel, by decide +kernel⟩

/-- Without the tag a declaration goes across the line end. -/
example : references {} ("file= " ++ "\n" ++ "'c.jsp'") = ["c.jsp"] := by decide +kernel

end PageGraph
