import PageGraph.Layout
import PageGraph.Text.Blank

/-!
# Declarations in a page text

There is no grammar for the pages, so references are found by their shape. A declaration is

    attribute blanks = blanks quote value blanks quote

where both quotes are the same, single or double, and the value ends in a dot and one of the extensions. Up to
that extension a value holds neither its quote nor a line end. Where several readings are possible the first
attribute of the list wins, then the shortest value, then the first extension.

`scan` goes through a text and takes a declaration wherever one starts, then goes on behind it. Every step
ends further on in the text (`length_declaration?_lt`), which is why the scan ends.
-/

namespace PageGraph

/-- What makes up a declaration: the attributes and the extensions. -/
structure Declarations where
  attributes : List (List Char)
  extensions : List (List Char)
  deriving DecidableEq, Repr

namespace Declarations

/-- The declarations of a layout. -/
def ofLayout (layout : Layout) : Declarations where
  attributes := layout.referenceAttributes.map String.toList
  extensions := layout.extensions.map String.toList

variable (declarations : Declarations)

/-- The text behind blanks and the character `c`. -/
def afterBlanks? (c : Char) (text : List Char) : Option (List Char) :=
  match text.dropWhile Text.isBlank with
  | [] => none
  | d :: rest => if d = c then some rest else none

/-- The end of a value at this place: its extension with the dot, and the text behind the closing quote. -/
def ending? (quote : Char) (text : List Char) : Option (List Char × List Char) :=
  declarations.extensions.findSome? fun extension =>
    (Text.after? ('.' :: extension) text).bind fun rest =>
      (afterBlanks? quote rest).map fun rest => ('.' :: extension, rest)

/-- A value from this place on, and the text behind its closing quote. -/
def value? (quote : Char) : List Char → Option (List Char × List Char)
  | [] => none
  | c :: text =>
    match declarations.ending? quote (c :: text) with
    | some found => some found
    | none =>
      if c = quote ∨ c = '\r' ∨ c = '\n' then none
      else (value? quote text).map fun (value, rest) => (c :: value, rest)

/-- A quoted value, and the text behind its closing quote. -/
def quoted? : List Char → Option (List Char × List Char)
  | c :: text => if c = '"' ∨ c = '\'' then declarations.value? c text else none
  | [] => none

/-- The declaration that starts here: its value, and the text behind it. -/
def declaration? (text : List Char) : Option (List Char × List Char) :=
  declarations.attributes.findSome? fun spelling =>
    (Text.after? spelling text).bind fun rest =>
      (afterBlanks? '=' rest).bind fun rest => declarations.quoted? (rest.dropWhile Text.isBlank)

/-! ### The scan goes forward -/

theorem length_after? {token text rest : List Char} (h : Text.after? token text = some rest) :
    rest.length + token.length = text.length := by
  rw [Text.after?_eq_some h, List.length_append, Nat.add_comm]

theorem length_afterBlanks?_lt {c : Char} {text rest : List Char} (h : afterBlanks? c text = some rest) :
    rest.length < text.length := by
  have hle := (List.dropWhile_sublist (l := text) Text.isBlank).length_le
  simp only [afterBlanks?] at h
  split at h
  · simp at h
  · next hd =>
    split at h
    · simp only [Option.some.injEq] at h
      subst h
      simpa [hd, Nat.succ_le_iff] using hle
    · simp at h

theorem length_ending?_lt {quote : Char} {text value rest : List Char}
    (h : declarations.ending? quote text = some (value, rest)) : rest.length < text.length := by
  obtain ⟨extension, -, h⟩ := List.exists_of_findSome?_eq_some h
  cases ha : Text.after? ('.' :: extension) text with
  | none => simp [ha] at h
  | some tail =>
    cases hb : afterBlanks? quote tail with
    | none => simp [ha, hb] at h
    | some behind =>
      simp only [ha, hb, Option.bind_some, Option.map_some, Option.some.injEq, Prod.mk.injEq] at h
      obtain ⟨-, rfl⟩ := h
      have := length_after? ha
      have := length_afterBlanks?_lt hb
      omega

theorem length_value?_lt {quote : Char} {text value rest : List Char}
    (h : declarations.value? quote text = some (value, rest)) : rest.length < text.length := by
  induction text generalizing value with
  | nil => simp [value?] at h
  | cons c text ih =>
    simp only [value?] at h
    split at h
    · next he =>
      simp only [Option.some.injEq] at h
      subst h
      exact declarations.length_ending?_lt he
    · split at h
      · simp at h
      · cases hv : declarations.value? quote text with
        | none => simp [hv] at h
        | some found =>
          simp only [hv, Option.map_some, Option.some.injEq, Prod.mk.injEq] at h
          obtain ⟨-, rfl⟩ := h
          exact Nat.lt_succ_of_lt (ih hv)

theorem length_quoted?_lt {text value rest : List Char}
    (h : declarations.quoted? text = some (value, rest)) : rest.length < text.length := by
  cases text with
  | nil => simp [quoted?] at h
  | cons c text =>
    simp only [quoted?] at h
    split at h
    · exact Nat.lt_succ_of_lt (declarations.length_value?_lt h)
    · simp at h

theorem length_declaration?_lt {text value rest : List Char}
    (h : declarations.declaration? text = some (value, rest)) : rest.length < text.length := by
  obtain ⟨spelling, -, h⟩ := List.exists_of_findSome?_eq_some h
  cases ha : Text.after? spelling text with
  | none => simp [ha] at h
  | some tail =>
    cases hb : afterBlanks? '=' tail with
    | none => simp [ha, hb] at h
    | some behind =>
      simp only [ha, hb, Option.bind_some] at h
      have := length_after? ha
      have := length_afterBlanks?_lt hb
      have := declarations.length_quoted?_lt h
      have := (List.dropWhile_sublist (l := behind) Text.isBlank).length_le
      omega

/-! ### The scan -/

/-- The values of the declarations of a text, in text order. -/
def scan (text : List Char) : List (List Char) :=
  match _h : declarations.declaration? text with
  | some (value, rest) => value :: scan rest
  | none =>
    match text with
    | [] => []
    | _ :: text => scan text
termination_by text.length
decreasing_by
  · exact declarations.length_declaration?_lt _h
  · simp

end Declarations

end PageGraph
