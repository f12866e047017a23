import PageGraph.Proofs.Lists
import PageGraph.Reference.Declaration

/-!
# How a declaration is spelled

A declaration is told here by its parts (`Spelling`), with no word on how it is looked for. Where attributes and
extensions are words, a text can start with one declaration only, so it does not matter which attribute, which extension
or which end of the value is tried first: whatever is found is the one declaration, and something is found if there is
one.

* `Spelling.IsDeclaration` : the parts make up a declaration;
* `Spelling.eq_of_text_append_eq` : the value and the end of a declaration are determined by where it starts;
* `declaration?_eq_some_iff` : what `declaration?` finds.
-/

namespace PageGraph.Declarations

/-- A word of a declaration: neither blanks nor `=` nor quotes are in it. -/
def IsWord (word : List Char) : Prop :=
  word ≠ [] ∧ ∀ c ∈ word, Text.isBlank c = false ∧ c ≠ '=' ∧ c ≠ '"' ∧ c ≠ '\''

instance (word : List Char) : Decidable (IsWord word) :=
  decidable_of_iff (word ≠ [] ∧ word.all (fun c => Text.isBlank c = false ∧ c ≠ '=' ∧ c ≠ '"' ∧ c ≠ '\'') = true) (by
    simp only [IsWord, List.all_eq_true, decide_eq_true_eq])

/-- A text of blanks. -/
def IsBlanks (text : List Char) : Prop := ∀ c ∈ text, Text.isBlank c = true

/-- The parts of a declaration, as they stand in a text one after the other. -/
structure Spelling where
  /-- The attribute. -/
  name : List Char
  /-- What is between the attribute and the sign `=`. -/
  beforeSign : List Char
  /-- What is between the sign and the opening quote. -/
  afterSign : List Char
  quote : Char
  value : List Char
  /-- What is between the value and the closing quote. -/
  afterValue : List Char

/-- The text that the parts make up. -/
def Spelling.text (spelling : Spelling) : List Char :=
  spelling.name ++ (spelling.beforeSign ++ '=' :: (spelling.afterSign ++
    spelling.quote :: (spelling.value ++ (spelling.afterValue ++ [spelling.quote]))))

/-- The parts make up a declaration. -/
structure Spelling.IsDeclaration (declarations : Declarations) (spelling : Spelling) : Prop where
  name : spelling.name ∈ declarations.attributes
  beforeSign : IsBlanks spelling.beforeSign
  afterSign : IsBlanks spelling.afterSign
  quote : spelling.quote = '"' ∨ spelling.quote = '\''
  extension : ∃ extension ∈ declarations.extensions, '.' :: extension <:+ spelling.value
  value : ∀ c ∈ spelling.value, c ≠ spelling.quote ∧ c ≠ '\r' ∧ c ≠ '\n'
  afterValue : IsBlanks spelling.afterValue

/-- Attributes and extensions are words. -/
structure OfWords (declarations : Declarations) : Prop where
  attributes : ∀ name ∈ declarations.attributes, IsWord name
  extensions : ∀ extension ∈ declarations.extensions, IsWord extension

variable {declarations : Declarations} {quote : Char} {text value rest : List Char} {spelling other : Spelling}

/-! ### The parts are determined -/

theorem isBlank_quote (h : quote = '"' ∨ quote = '\'') : Text.isBlank quote = false := by
  rcases h with rfl | rfl <;> decide

/-- A value ends with a character that is not blank. -/
theorem Spelling.IsDeclaration.exists_last (hwords : declarations.OfWords) (h : spelling.IsDeclaration declarations) :
    ∃ last before, spelling.value.reverse = last :: before ∧ Text.isBlank last = false := by
  obtain ⟨extension, hmem, stem, hvalue⟩ := h.extension
  obtain ⟨hne, hplain⟩ := hwords.extensions extension hmem
  obtain ⟨last, before, hreverse⟩ := List.exists_cons_of_ne_nil (List.reverse_ne_nil_iff.2 hne)
  have hlast : last ∈ extension := List.mem_reverse.1 (hreverse ▸ List.mem_cons_self)
  refine ⟨last, before ++ '.' :: stem.reverse, ?_, (hplain last hlast).1⟩
  rw [← hvalue, List.reverse_append, List.reverse_cons, hreverse, List.cons_append, List.cons_append,
    List.append_assoc, List.singleton_append]

/-- A closing quote is the first quote of its kind behind the opening one. -/
theorem Spelling.IsDeclaration.ne_quote (h : spelling.IsDeclaration declarations) {c : Char}
    (hc : c ∈ spelling.value ++ spelling.afterValue) : c ≠ spelling.quote := by
  rcases List.mem_append.1 hc with hc | hc
  · exact (h.value c hc).1
  · rintro rfl
    have hblank := h.afterValue _ hc
    rw [isBlank_quote h.quote] at hblank
    cases hblank

/-- Whether a character may stand in an attribute as far as what comes behind it is concerned. -/
def isPlain (c : Char) : Bool := !Text.isBlank c && c != '='

theorem isPlain_of_mem {c : Char} (h : Text.isBlank c = false ∧ c ≠ '=' ∧ c ≠ '"' ∧ c ≠ '\'') : isPlain c = true := by
  rw [isPlain, h.1, bne_iff_ne.2 h.2.1]
  rfl

/-- Behind an attribute there is a blank or the sign. -/
theorem exists_boundary {blanks : List Char} (h : IsBlanks blanks) (rest : List Char) :
    ∃ c tail, blanks ++ '=' :: rest = c :: tail ∧ isPlain c = false := by
  cases blanks with
  | nil => exact ⟨'=', rest, rfl, by decide⟩
  | cons c blanks =>
    refine ⟨c, blanks ++ '=' :: rest, rfl, ?_⟩
    rw [isPlain, h c List.mem_cons_self]
    rfl

/-- **Where a declaration starts determines its value and its end.** -/
theorem Spelling.eq_of_text_append_eq (hwords : declarations.OfWords) (h : spelling.IsDeclaration declarations)
    (hother : other.IsDeclaration declarations) {behind : List Char}
    (heq : spelling.text ++ rest = other.text ++ behind) :
    spelling.value = other.value ∧ spelling.text = other.text ∧ rest = behind := by
  obtain ⟨-, hplain⟩ := hwords.attributes _ h.name
  obtain ⟨-, hplain'⟩ := hwords.attributes _ hother.name
  simp only [text, List.append_assoc, List.cons_append, List.nil_append] at heq
  -- the attribute ends before the first blank or sign
  obtain ⟨x, tail, hx, hkind⟩ := exists_boundary h.beforeSign
    (spelling.afterSign ++ spelling.quote :: (spelling.value ++ (spelling.afterValue ++ spelling.quote :: rest)))
  obtain ⟨y, tail', hy, hkind'⟩ := exists_boundary hother.beforeSign
    (other.afterSign ++ other.quote :: (other.value ++ (other.afterValue ++ other.quote :: behind)))
  rw [hx, hy] at heq
  obtain ⟨hname, rfl, rfl⟩ := append_cons_inj_of_forall (fun c hc => isPlain_of_mem (hplain c hc)) hkind
    (fun c hc => isPlain_of_mem (hplain' c hc)) hkind' heq
  -- blanks end at the sign, and behind it at the quote
  obtain ⟨hbefore, -, hsign⟩ := append_cons_inj_of_forall h.beforeSign (by decide) hother.beforeSign (by decide)
    (hx.trans hy.symm)
  obtain ⟨hafter, hquote, hbody⟩ := append_cons_inj_of_forall h.afterSign (isBlank_quote h.quote) hother.afterSign
    (isBlank_quote hother.quote) hsign
  -- the next quote closes the value
  rw [← List.append_assoc, ← List.append_assoc, hquote] at hbody
  have hopen : ∀ c ∈ spelling.value ++ spelling.afterValue, (c != other.quote) = true :=
    fun c hc => bne_iff_ne.2 (hquote ▸ h.ne_quote hc)
  have hopen' : ∀ c ∈ other.value ++ other.afterValue, (c != other.quote) = true :=
    fun c hc => bne_iff_ne.2 (hother.ne_quote hc)
  obtain ⟨hquoted, -, hrest⟩ := append_cons_inj_of_forall hopen (bne_self_eq_false other.quote) hopen'
    (bne_self_eq_false other.quote) hbody
  -- and the value ends at the last character that is not blank
  obtain ⟨last, stem, hlast, hnotBlank⟩ := h.exists_last hwords
  obtain ⟨last', stem', hlast', hnotBlank'⟩ := hother.exists_last hwords
  have hreverse := congrArg List.reverse hquoted
  rw [List.reverse_append, List.reverse_append, hlast, hlast'] at hreverse
  obtain ⟨hbehind, hlasts, hstems⟩ := append_cons_inj_of_forall (fun c hc => h.afterValue c (List.mem_reverse.1 hc))
    hnotBlank (fun c hc => hother.afterValue c (List.mem_reverse.1 hc)) hnotBlank' hreverse
  have hvalue : spelling.value = other.value := by
    rw [← List.reverse_inj, hlast, hlast', hlasts, hstems]
  refine ⟨hvalue, ?_, hrest⟩
  rw [text, text, hname, hbefore, hafter, hquote, hvalue, List.reverse_inj.1 hbehind]

/-! ### What is found is a declaration -/

theorem isBlanks_takeWhile (text : List Char) : IsBlanks (text.takeWhile Text.isBlank) := by
  intro c hc
  exact List.all_eq_true.1 List.all_takeWhile c hc

theorem afterBlanks?_eq_some {c : Char} (h : afterBlanks? c text = some rest) :
    ∃ blanks, IsBlanks blanks ∧ text = blanks ++ c :: rest := by
  refine ⟨text.takeWhile Text.isBlank, isBlanks_takeWhile text, ?_⟩
  rw [afterBlanks?] at h
  split at h
  · cases h
  · next d tail hdrop =>
    split at h
    · next hd =>
      obtain rfl := Option.some.inj h
      rw [← hd, ← hdrop, List.takeWhile_append_dropWhile]
    · cases h

theorem ending?_eq_some (h : declarations.ending? quote text = some (value, rest)) :
    ∃ extension ∈ declarations.extensions, ∃ blanks, value = '.' :: extension ∧ IsBlanks blanks ∧
      text = value ++ (blanks ++ quote :: rest) := by
  obtain ⟨extension, hextension, h⟩ := List.exists_of_findSome?_eq_some h
  obtain ⟨tail, htail, h⟩ := Option.bind_eq_some_iff.1 h
  obtain ⟨behind, hbehind, h⟩ := Option.map_eq_some_iff.1 h
  obtain ⟨rfl, rfl⟩ := Prod.mk.inj h
  obtain ⟨blanks, hblanks, rfl⟩ := afterBlanks?_eq_some hbehind
  exact ⟨extension, hextension, blanks, rfl, hblanks, Text.after?_eq_some htail⟩

/-- What is found at a place where a value may start. -/
theorem value?_eq_some (h : declarations.value? quote text = some (value, rest)) :
    ∃ stem, ∃ extension ∈ declarations.extensions, ∃ blanks, value = stem ++ '.' :: extension ∧ IsBlanks blanks ∧
      text = value ++ (blanks ++ quote :: rest) ∧ ∀ c ∈ stem, c ≠ quote ∧ c ≠ '\r' ∧ c ≠ '\n' := by
  induction text generalizing value with
  | nil => cases h
  | cons c text ih =>
    rw [value?] at h
    split at h
    · next found hending =>
      obtain rfl := Option.some.inj h
      obtain ⟨extension, hextension, blanks, hvalue, hblanks, htext⟩ := ending?_eq_some hending
      exact ⟨[], extension, hextension, blanks, hvalue, hblanks, htext, fun c hc => absurd hc List.not_mem_nil⟩
    · split at h
      · cases h
      · next hc =>
        obtain ⟨found, hfound, h⟩ := Option.map_eq_some_iff.1 h
        obtain ⟨rfl, rfl⟩ := Prod.mk.inj h
        obtain ⟨stem, extension, hextension, blanks, hvalue, hblanks, rfl, hstem⟩ := ih hfound
        refine ⟨c :: stem, extension, hextension, blanks, by rw [hvalue, List.cons_append], hblanks, rfl, fun d hd => ?_⟩
        rcases List.mem_cons.1 hd with rfl | hd
        · rwa [not_or, not_or] at hc
        · exact hstem d hd

theorem quoted?_eq_some (h : declarations.quoted? text = some (value, rest)) :
    ∃ quote tail, (quote = '"' ∨ quote = '\'') ∧ text = quote :: tail ∧
      declarations.value? quote tail = some (value, rest) := by
  cases text with
  | nil => cases h
  | cons quote tail =>
    rw [quoted?] at h
    split at h
    · next hquote => exact ⟨quote, tail, hquote, rfl, h⟩
    · cases h

/-- Extensions that are words hold nothing that a value must not hold. -/
theorem OfWords.ne_of_mem_extension (hwords : declarations.OfWords) (hquote : quote = '"' ∨ quote = '\'')
    {extension : List Char} (h : extension ∈ declarations.extensions) {c : Char} (hc : c ∈ '.' :: extension) :
    c ≠ quote ∧ c ≠ '\r' ∧ c ≠ '\n' := by
  rcases List.mem_cons.1 hc with rfl | hc
  · rcases hquote with rfl | rfl <;> decide
  · obtain ⟨hblank, -, hdouble, hsingle⟩ := (hwords.extensions extension h).2 c hc
    refine ⟨?_, ?_, ?_⟩
    · rcases hquote with rfl | rfl
      · exact hdouble
      · exact hsingle
    · rintro rfl
      revert hblank
      decide
    · rintro rfl
      revert hblank
      decide

/-- What is found at the start of a text has the parts of a declaration, whatever the extensions are: only the end of the
value, which is an extension, may hold what a value must not hold. -/
theorem exists_parts_of_declaration?_eq_some (h : declarations.declaration? text = some (value, rest)) :
    ∃ spelling : Spelling, spelling.name ∈ declarations.attributes ∧ IsBlanks spelling.beforeSign ∧
      IsBlanks spelling.afterSign ∧ (spelling.quote = '"' ∨ spelling.quote = '\'') ∧ IsBlanks spelling.afterValue ∧
      (∃ stem, ∃ extension ∈ declarations.extensions, spelling.value = stem ++ '.' :: extension ∧
        ∀ c ∈ stem, c ≠ spelling.quote ∧ c ≠ '\r' ∧ c ≠ '\n') ∧
      spelling.value = value ∧ text = spelling.text ++ rest := by
  obtain ⟨name, hname, h⟩ := List.exists_of_findSome?_eq_some h
  obtain ⟨behindName, hbehindName, h⟩ := Option.bind_eq_some_iff.1 h
  obtain ⟨behindSign, hbehindSign, h⟩ := Option.bind_eq_some_iff.1 h
  obtain ⟨quote, tail, hquote, hdrop, h⟩ := quoted?_eq_some h
  obtain ⟨stem, extension, hextension, afterValue, hvalue, hafterValue, rfl, hstem⟩ := value?_eq_some h
  obtain ⟨beforeSign, hbeforeSign, rfl⟩ := afterBlanks?_eq_some hbehindSign
  refine ⟨⟨name, beforeSign, behindSign.takeWhile Text.isBlank, quote, value, afterValue⟩, hname, hbeforeSign,
    isBlanks_takeWhile behindSign, hquote, hafterValue, ⟨stem, extension, hextension, hvalue, hstem⟩, rfl, ?_⟩
  have hsign : behindSign = behindSign.takeWhile Text.isBlank ++ quote :: (value ++ (afterValue ++ quote :: rest)) := by
    rw [← hdrop, List.takeWhile_append_dropWhile]
  rw [Text.after?_eq_some hbehindName, hsign]
  simp only [Spelling.text, List.append_assoc, List.cons_append, List.nil_append, ← hsign]

/-- What is found at the start of a text is a declaration. -/
theorem exists_spelling_of_declaration?_eq_some (hwords : declarations.OfWords)
    (h : declarations.declaration? text = some (value, rest)) :
    ∃ spelling : Spelling, spelling.IsDeclaration declarations ∧ spelling.value = value ∧ text = spelling.text ++ rest := by
  obtain ⟨spelling, hname, hbeforeSign, hafterSign, hquote, hafterValue, ⟨stem, extension, hextension, hvalue, hstem⟩,
    hspelled, htext⟩ := exists_parts_of_declaration?_eq_some h
  refine ⟨spelling, ⟨hname, hbeforeSign, hafterSign, hquote, ⟨extension, hextension, stem, hvalue.symm⟩, fun c hc => ?_,
    hafterValue⟩, hspelled, htext⟩
  rcases List.mem_append.1 (hvalue ▸ hc : c ∈ stem ++ '.' :: extension) with hc | hc
  · exact hstem c hc
  · exact hwords.ne_of_mem_extension hquote hextension hc

/-! ### A declaration is found -/

theorem after?_append (token rest : List Char) : Text.after? token (token ++ rest) = some rest := by
  rw [Text.after?, if_pos (List.isPrefixOf_iff_prefix.2 (List.prefix_append token rest)), List.drop_left]

theorem dropWhile_isBlank_append {blanks : List Char} (h : IsBlanks blanks) {c : Char} (hc : Text.isBlank c = false)
    (rest : List Char) : (blanks ++ c :: rest).dropWhile Text.isBlank = c :: rest := by
  rw [List.dropWhile_append_of_pos h, List.dropWhile_cons_of_neg (Bool.eq_false_iff.1 hc)]

theorem afterBlanks?_append {blanks : List Char} (h : IsBlanks blanks) {c : Char} (hc : Text.isBlank c = false)
    (rest : List Char) : afterBlanks? c (blanks ++ c :: rest) = some rest := by
  rw [afterBlanks?, dropWhile_isBlank_append h hc]
  exact if_pos rfl

/-- Where a value with one of the extensions starts and is closed, something is found. -/
theorem isSome_value? {extension blanks : List Char} (hextension : extension ∈ declarations.extensions)
    (hblanks : IsBlanks blanks) (hquote : quote = '"' ∨ quote = '\'') (rest : List Char) {stem : List Char}
    (hstem : ∀ c ∈ stem, c ≠ quote ∧ c ≠ '\r' ∧ c ≠ '\n') :
    (declarations.value? quote (stem ++ '.' :: extension ++ (blanks ++ quote :: rest))).isSome = true := by
  induction stem with
  | nil =>
    have hending : (declarations.ending? quote ('.' :: extension ++ (blanks ++ quote :: rest))).isSome = true := by
      refine List.findSome?_isSome_iff.2 ⟨extension, hextension, ?_⟩
      rw [after?_append, Option.bind_some, afterBlanks?_append hblanks (isBlank_quote hquote)]
      rfl
    obtain ⟨found, hfound⟩ := Option.isSome_iff_exists.1 hending
    rw [List.nil_append, List.cons_append, value?, ← List.cons_append, hfound]
    rfl
  | cons c stem ih =>
    have hc : ¬(c = quote ∨ c = '\r' ∨ c = '\n') := by
      rw [not_or, not_or]
      exact hstem c List.mem_cons_self
    have htail := ih fun d hd => hstem d (List.mem_cons_of_mem c hd)
    rw [List.cons_append, List.cons_append, value?]
    split
    · rfl
    · rw [if_neg hc, Option.isSome_map]
      exact htail

theorem isSome_declaration? (h : spelling.IsDeclaration declarations) (rest : List Char) :
    (declarations.declaration? (spelling.text ++ rest)).isSome = true := by
  obtain ⟨extension, hextension, stem, hvalue⟩ := h.extension
  refine List.findSome?_isSome_iff.2 ⟨spelling.name, h.name, ?_⟩
  have htext : spelling.text ++ rest = spelling.name ++ (spelling.beforeSign ++ '=' :: (spelling.afterSign ++
      spelling.quote :: (spelling.value ++ (spelling.afterValue ++ spelling.quote :: rest)))) := by
    simp only [Spelling.text, List.append_assoc, List.cons_append, List.nil_append]
  rw [htext, after?_append, Option.bind_some, afterBlanks?_append h.beforeSign (by decide), Option.bind_some,
    dropWhile_isBlank_append h.afterSign (isBlank_quote h.quote), quoted?, if_pos h.quote, ← hvalue]
  exact isSome_value? hextension h.afterValue h.quote rest fun c hc =>
    h.value c (hvalue ▸ List.mem_append_left _ hc)

/-- **What is found at the start of a text** is the declaration that starts there. -/
theorem declaration?_eq_some_iff (hwords : declarations.OfWords) :
    declarations.declaration? text = some (value, rest) ↔
      ∃ spelling : Spelling, spelling.IsDeclaration declarations ∧ spelling.value = value ∧ text = spelling.text ++ rest := by
  constructor
  · exact exists_spelling_of_declaration?_eq_some hwords
  · rintro ⟨spelling, hspelling, rfl, rfl⟩
    obtain ⟨⟨value, behind⟩, hfound⟩ := Option.isSome_iff_exists.1 (isSome_declaration? hspelling rest)
    obtain ⟨other, hother, rfl, htext⟩ := exists_spelling_of_declaration?_eq_some hwords hfound
    obtain ⟨hvalue, -, hrest⟩ := Spelling.eq_of_text_append_eq hwords hspelling hother htext
    rw [hfound, hvalue, hrest]

theorem declaration?_eq_none_iff (hwords : declarations.OfWords) :
    declarations.declaration? text = none ↔
      ∀ (spelling : Spelling) (rest : List Char), spelling.IsDeclaration declarations → text ≠ spelling.text ++ rest := by
  constructor
  · rintro hnone spelling rest hspelling rfl
    have hfound := isSome_declaration? hspelling rest
    rw [hnone] at hfound
    cases hfound
  · intro hno
    cases hfound : declarations.declaration? text with
    | none => rfl
    | some found =>
      obtain ⟨spelling, hspelling, -, htext⟩ := exists_spelling_of_declaration?_eq_some hwords hfound
      exact absurd htext (hno spelling found.2 hspelling)

end PageGraph.Declarations
