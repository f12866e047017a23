import PageGraph.Json.Basic

/-!
# JSON tokens

A JSON text is a sequence of tokens with blanks between them. Strings and numbers are kept as written; their
form is checked here, what they stand for is not.

`length_token?_lt` says that every token takes something, which is why `tokens?` ends.
-/

namespace PageGraph.Json

/-- The tokens of JSON. -/
inductive Token where
  | openArray
  | closeArray
  | openObject
  | closeObject
  | comma
  | colon
  | null
  | bool (value : Bool)
  | number (literal : List Char)
  | string (literal : List Char)
  deriving DecidableEq, Repr

namespace Token

/-- The blanks of JSON. -/
def isBlank (c : Char) : Bool := c = ' ' || c = '\n' || c = '\t' || c = '\r'

/-- Whether four characters are the digits of a long escape. -/
def isLongEscape (a b c d : Char) : Bool := (longEscape? a b c d).isSome

/-- A string literal and the text behind its closing quote: escapes are complete, and no control character
stands in it. -/
def takeString : List Char → Option (List Char × List Char)
  | [] => none
  | '"' :: rest => some ([], rest)
  | '\\' :: 'u' :: a :: b :: c :: d :: rest =>
    if isLongEscape a b c d then
      (takeString rest).map fun (literal, rest) => ('\\' :: 'u' :: a :: b :: c :: d :: literal, rest)
    else none
  | '\\' :: e :: rest =>
    if (shortEscape? e).isSome then
      (takeString rest).map fun (literal, rest) => ('\\' :: e :: literal, rest)
    else none
  | c :: rest =>
    if c = '\\' ∨ c.toNat < 0x20 then none
    else (takeString rest).map fun (literal, rest) => (c :: literal, rest)

/-- The digits at the head of a text, and the rest. -/
def takeDigits (text : List Char) : List Char × List Char :=
  (text.takeWhile Char.isDigit, text.dropWhile Char.isDigit)

/-- At least one digit. -/
def someDigits? (text : List Char) : Option (List Char × List Char) :=
  match takeDigits text with
  | ([], _) => none
  | found => some found

/-- The whole part of a number: a zero alone, or digits that do not start with one. -/
def wholePart? : List Char → Option (List Char × List Char)
  | '0' :: rest => some (['0'], rest)
  | text => someDigits? text

/-- The fraction of a number, if there is one. -/
def fraction? : List Char → Option (List Char × List Char)
  | '.' :: rest => (someDigits? rest).map fun (digits, rest) => ('.' :: digits, rest)
  | text => some ([], text)

/-- The sign of an exponent, if there is one. -/
def takeSign : List Char → List Char × List Char
  | '+' :: rest => (['+'], rest)
  | '-' :: rest => (['-'], rest)
  | text => ([], text)

/-- The exponent of a number, if there is one. -/
def exponent? : List Char → Option (List Char × List Char)
  | c :: rest =>
    if c = 'e' ∨ c = 'E' then
      (someDigits? (takeSign rest).2).map fun (digits, behind) => (c :: (takeSign rest).1 ++ digits, behind)
    else some ([], c :: rest)
  | [] => some ([], [])

/-- A number without its sign. -/
def unsigned? (text : List Char) : Option (List Char × List Char) := do
  let (whole, rest) ← wholePart? text
  let (fraction, rest) ← fraction? rest
  let (exponent, rest) ← exponent? rest
  return (whole ++ fraction ++ exponent, rest)

/-- A number literal and the text behind it. -/
def takeNumber : List Char → Option (List Char × List Char)
  | '-' :: rest => (unsigned? rest).map fun (literal, rest) => ('-' :: literal, rest)
  | text => unsigned? text

/-- A word of the grammar and the text behind it. -/
def takeWord (text : List Char) : Option (Token × List Char) :=
  match text with
  | 'n' :: 'u' :: 'l' :: 'l' :: rest => some (.null, rest)
  | 't' :: 'r' :: 'u' :: 'e' :: rest => some (.bool true, rest)
  | 'f' :: 'a' :: 'l' :: 's' :: 'e' :: rest => some (.bool false, rest)
  | _ => none

/-- The token at the head of a text, and the text behind it. -/
def token? : List Char → Option (Token × List Char)
  | [] => none
  | '[' :: rest => some (.openArray, rest)
  | ']' :: rest => some (.closeArray, rest)
  | '\x7b' :: rest => some (.openObject, rest)
  | '\x7d' :: rest => some (.closeObject, rest)
  | ',' :: rest => some (.comma, rest)
  | ':' :: rest => some (.colon, rest)
  | '"' :: rest => (takeString rest).map fun (literal, rest) => (.string literal, rest)
  | c :: rest =>
    if c = '-' ∨ c.isDigit then
      (takeNumber (c :: rest)).map fun (literal, rest) => (.number literal, rest)
    else takeWord (c :: rest)

/-! ### Every token takes something -/

theorem takeString_eq_some {text literal rest : List Char} (h : takeString text = some (literal, rest)) :
    text = literal ++ '"' :: rest := by
  fun_induction takeString text generalizing literal with
  | case1 => simp at h
  | case2 tail => simp_all
  | case3 a b c d tail _ ih =>
    cases ht : takeString tail with
    | none => simp [ht] at h
    | some found =>
      simp only [ht, Option.map_some, Option.some.injEq, Prod.mk.injEq] at h
      obtain ⟨rfl, rfl⟩ := h
      simp [ih ht]
  | case4 => simp at h
  | case5 e tail _ _ ih =>
    cases ht : takeString tail with
    | none => simp [ht] at h
    | some found =>
      simp only [ht, Option.map_some, Option.some.injEq, Prod.mk.injEq] at h
      obtain ⟨rfl, rfl⟩ := h
      simp [ih ht]
  | case6 => simp at h
  | case7 => simp at h
  | case8 c tail _ _ _ _ ih =>
    cases ht : takeString tail with
    | none => simp [ht] at h
    | some found =>
      simp only [ht, Option.map_some, Option.some.injEq, Prod.mk.injEq] at h
      obtain ⟨rfl, rfl⟩ := h
      simp [ih ht]

theorem someDigits?_eq_some {text digits rest : List Char} (h : someDigits? text = some (digits, rest)) :
    text = digits ++ rest ∧ digits ≠ [] := by
  unfold someDigits? at h
  split at h
  · simp at h
  · next found hne =>
    have h := Option.some.inj h
    rw [takeDigits, Prod.mk.injEq] at h
    refine ⟨?_, fun hd => hne rest (by rw [takeDigits, h.1, h.2, hd])⟩
    rw [← h.1, ← h.2, List.takeWhile_append_dropWhile]

theorem wholePart?_eq_some {text whole rest : List Char} (h : wholePart? text = some (whole, rest)) :
    text = whole ++ rest ∧ whole ≠ [] := by
  unfold wholePart? at h
  split at h
  · simp only [Option.some.injEq, Prod.mk.injEq] at h
    obtain ⟨rfl, rfl⟩ := h
    simp
  · exact someDigits?_eq_some h

theorem fraction?_eq_some {text fraction rest : List Char} (h : fraction? text = some (fraction, rest)) :
    text = fraction ++ rest := by
  unfold fraction? at h
  split at h
  · next tail =>
    cases hd : someDigits? tail with
    | none => simp [hd] at h
    | some found =>
      simp only [hd, Option.map_some, Option.some.injEq, Prod.mk.injEq] at h
      obtain ⟨rfl, rfl⟩ := h
      simp [(someDigits?_eq_some hd).1]
  · simp_all

theorem takeSign_append (text : List Char) : (takeSign text).1 ++ (takeSign text).2 = text := by
  unfold takeSign
  split <;> rfl

theorem exponent?_eq_some {text exponent rest : List Char} (h : exponent? text = some (exponent, rest)) :
    text = exponent ++ rest := by
  unfold exponent? at h
  split at h
  · next c tail =>
    split at h
    · cases hd : someDigits? (takeSign tail).2 with
      | none => simp [hd] at h
      | some found =>
        simp only [hd, Option.map_some, Option.some.injEq, Prod.mk.injEq] at h
        obtain ⟨rfl, rfl⟩ := h
        have := (someDigits?_eq_some hd).1
        rw [List.cons_append, List.cons_append, List.append_assoc, ← this, takeSign_append]
    · simp_all
  · simp_all

theorem unsigned?_eq_some {text literal rest : List Char} (h : unsigned? text = some (literal, rest)) :
    text = literal ++ rest ∧ literal ≠ [] := by
  unfold unsigned? at h
  cases hw : wholePart? text with
  | none => simp [hw] at h
  | some whole =>
    cases hf : fraction? whole.2 with
    | none => simp [hw, hf] at h
    | some fraction =>
      cases he : exponent? fraction.2 with
      | none => simp [hw, hf, he] at h
      | some exponent =>
        simp only [hw, hf, he, Option.bind_eq_bind, Option.bind_some, Option.pure_def, Option.some.injEq,
          Prod.mk.injEq] at h
        obtain ⟨rfl, rfl⟩ := h
        obtain ⟨hw, hne⟩ := wholePart?_eq_some hw
        refine ⟨?_, by simp [hne]⟩
        rw [hw, fraction?_eq_some hf, exponent?_eq_some he]
        simp

theorem takeNumber_eq_some {text literal rest : List Char} (h : takeNumber text = some (literal, rest)) :
    text = literal ++ rest ∧ literal ≠ [] := by
  unfold takeNumber at h
  split at h
  · next tail =>
    cases hu : unsigned? tail with
    | none => simp [hu] at h
    | some found =>
      simp only [hu, Option.map_some, Option.some.injEq, Prod.mk.injEq] at h
      obtain ⟨rfl, rfl⟩ := h
      simp [(unsigned?_eq_some hu).1]
  · exact unsigned?_eq_some h

theorem length_takeWord_lt {text rest : List Char} {token : Token} (h : takeWord text = some (token, rest)) :
    rest.length < text.length := by
  unfold takeWord at h
  split at h <;> simp at h <;> obtain ⟨-, rfl⟩ := h <;> simp <;> omega

theorem length_token?_lt {text rest : List Char} {token : Token} (h : token? text = some (token, rest)) :
    rest.length < text.length := by
  unfold token? at h
  split at h
  · simp at h
  case h_8 tail =>
    cases ht : takeString tail with
    | none => simp [ht] at h
    | some found =>
      simp only [ht, Option.map_some, Option.some.injEq, Prod.mk.injEq] at h
      obtain ⟨-, rfl⟩ := h
      simp [takeString_eq_some ht]
      omega
  case h_9 c tail _ _ _ _ _ _ _ =>
    split at h
    · cases ht : takeNumber (c :: tail) with
      | none => simp [ht] at h
      | some found =>
        simp only [ht, Option.map_some, Option.some.injEq, Prod.mk.injEq] at h
        obtain ⟨-, rfl⟩ := h
        obtain ⟨heq, hne⟩ := takeNumber_eq_some ht
        have := List.length_pos_iff.2 hne
        rw [heq, List.length_append]
        omega
    · exact length_takeWord_lt h
  all_goals
    simp only [Option.some.injEq, Prod.mk.injEq] at h
    obtain ⟨-, rfl⟩ := h
    simp

end Token

/-- The tokens of a text. -/
def tokens? (text : List Char) : Option (List Token) :=
  match _h : text.dropWhile Token.isBlank with
  | [] => some []
  | c :: behind =>
    match _ht : Token.token? (c :: behind) with
    | none => none
    | some (token, rest) => (tokens? rest).map (token :: ·)
termination_by text.length
decreasing_by
  have := Token.length_token?_lt _ht
  have := (List.dropWhile_sublist (l := text) Token.isBlank).length_le
  rw [_h] at this
  omega

end PageGraph.Json
