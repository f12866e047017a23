/-!
# Searching for a token in a text

Splitting a text at the first or the last occurrence of a token. An empty token occurs nowhere: a layout
switches a macro off by leaving its token empty.

`splitAtFirst?_eq_some` and `splitAtLast?_eq_some` say that the two parts and the token make up the text.
-/

namespace PageGraph.Text

/-- The text after `token`, if the text begins with it. -/
def after? (token : List Char) : List Char → Option (List Char)
  | text => if token.isPrefixOf text then some (text.drop token.length) else none

/-- Whether a text begins with a token that is not empty. -/
def opensWith (token text : List Char) : Bool := !token.isEmpty && token.isPrefixOf text

/-- The text before and after the first occurrence of a token. -/
def splitAtFirst? (token : List Char) : List Char → Option (List Char × List Char)
  | [] => none
  | c :: text =>
    if opensWith token (c :: text) then some ([], (c :: text).drop token.length)
    else (splitAtFirst? token text).map fun (before, after) => (c :: before, after)

/-- The text before and after the last occurrence of a token. -/
def splitAtLast? (token : List Char) : List Char → Option (List Char × List Char)
  | [] => none
  | c :: text =>
    match splitAtLast? token text with
    | some (before, after) => some (c :: before, after)
    | none =>
      if opensWith token (c :: text) then some ([], (c :: text).drop token.length) else none

/-- Whether a token occurs in a text. -/
def occursIn (token text : List Char) : Bool := (splitAtFirst? token text).isSome

/-- Whether one of several tokens occurs in a text. -/
def anyOccursIn (tokens : List String) (text : List Char) : Bool :=
  tokens.any fun token => occursIn token.toList text

theorem after?_eq_some {token text rest : List Char} (h : after? token text = some rest) :
    text = token ++ rest := by
  simp only [after?] at h
  split at h
  · next hp =>
    obtain ⟨tail, rfl⟩ := List.isPrefixOf_iff_prefix.1 hp
    simp at h
    rw [h]
  · simp at h

theorem eq_append_of_opensWith {token text : List Char} (h : opensWith token text = true) :
    text = token ++ text.drop token.length := by
  simp only [opensWith, Bool.and_eq_true] at h
  obtain ⟨tail, rfl⟩ := List.isPrefixOf_iff_prefix.1 h.2
  simp

theorem splitAtFirst?_eq_some {token text before after : List Char}
    (h : splitAtFirst? token text = some (before, after)) : text = before ++ token ++ after := by
  induction text generalizing before with
  | nil => simp [splitAtFirst?] at h
  | cons c text ih =>
    simp only [splitAtFirst?] at h
    split at h
    · next ho =>
      simp only [Option.some.injEq, Prod.mk.injEq] at h
      obtain ⟨rfl, rfl⟩ := h
      simpa using eq_append_of_opensWith ho
    · cases hs : splitAtFirst? token text with
      | none => simp [hs] at h
      | some parts =>
        obtain ⟨b, a⟩ := parts
        simp only [hs, Option.map_some, Option.some.injEq, Prod.mk.injEq] at h
        obtain ⟨rfl, rfl⟩ := h
        simp [ih hs]

theorem splitAtLast?_eq_some {token text before after : List Char}
    (h : splitAtLast? token text = some (before, after)) : text = before ++ token ++ after := by
  induction text generalizing before with
  | nil => simp [splitAtLast?] at h
  | cons c text ih =>
    simp only [splitAtLast?] at h
    cases hs : splitAtLast? token text with
    | some parts =>
      obtain ⟨b, a⟩ := parts
      simp only [hs, Option.some.injEq, Prod.mk.injEq] at h
      obtain ⟨rfl, rfl⟩ := h
      simp [ih hs]
    | none =>
      simp only [hs] at h
      split at h
      · next ho =>
        simp only [Option.some.injEq, Prod.mk.injEq] at h
        obtain ⟨rfl, rfl⟩ := h
        simpa using eq_append_of_opensWith ho
      · simp at h

end PageGraph.Text
