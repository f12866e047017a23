import PageGraph.Json.Printer
import PageGraph.Json.Reader
import PageGraph.Proofs.Text.Decimal

/-!
# Printed values are read back

A value is made of literals. Those that the program writes are the numerals of natural numbers and escaped texts;
a value with no others is `Json.Written`. Its indented text is read back as the same value, whatever the level.

* `Json.runFrom` : the reader on a text, from any of its situations;
* `Json.Begins` : the situations in which a value may come next;
* `Json.runFrom_indented` : the text of a value, in front of any other, leads past that value.

Main statement: `Json.parse?_pretty`.
-/

namespace PageGraph

namespace Json

open Text

/-- A value whose literals are all written by the program. -/
inductive Written : Json → Prop
  | null : Written .null
  | bool (value : Bool) : Written (.bool value)
  | number (n : ℕ) : Written (.number (Decimal.digits n))
  | string (text : List Char) : Written (.string (escape text))
  | array {items : List Json} : (∀ item ∈ items, Written item) → Written (.array items)
  | object {members : List (List Char × Json)} : (∀ member ∈ members, ∃ text, member.1 = escape text) →
      (∀ member ∈ members, Written member.2) → Written (.object members)

/-! ### Literals -/

namespace Token

theorem takeString_quote (rest : List Char) : takeString ('"' :: rest) = some ([], rest) := rfl

/-- A spelled unit is taken as it is written. -/
theorem takeString_append {unit : StringUnit} {spelling : List Char} (h : Spells unit spelling)
    (rest : List Char) :
    takeString (spelling ++ rest) =
      (takeString rest).map fun (literal, rest) => (spelling ++ literal, rest) := by
  cases h with
  | plain _ hbackslash hcontrol => simp [takeString, hbackslash, hcontrol]
  | short h => simp [takeString, ne_u_of_shortEscape? h, h]
  | long h => simp [takeString, isLongEscape, h]

theorem takeString_escape (text rest : List Char) :
    takeString (escape text ++ '"' :: rest) = some (escape text, rest) := by
  induction text with
  | nil => exact takeString_quote rest
  | cons c text ih =>
    rw [escape_cons, List.append_assoc, takeString_append (spells_escapeChar c), ih, Option.map_some]

/-- A text that does not go on a numeral in front of it. -/
def EndsNumber (text : List Char) : Prop :=
  ∀ c ∈ text.head?, c.isDigit = false ∧ c ≠ '.' ∧ c ≠ 'e' ∧ c ≠ 'E'

theorem endsNumber_nil : EndsNumber [] := by simp [EndsNumber]

theorem endsNumber_comma (text : List Char) : EndsNumber (',' :: text) := by simp [EndsNumber]

theorem endsNumber_newLine (level : ℕ) (text : List Char) : EndsNumber (newLine level text) := by
  simp [EndsNumber, newLine]

theorem takeDigits_append {digits rest : List Char} (hdigits : ∀ c ∈ digits, c.isDigit = true)
    (hrest : EndsNumber rest) : takeDigits (digits ++ rest) = (digits, rest) := by
  have hends : rest.takeWhile Char.isDigit = [] ∧ rest.dropWhile Char.isDigit = rest := by
    cases rest with
    | nil => exact ⟨rfl, rfl⟩
    | cons c rest => simp [(hrest c rfl).1]
  rw [takeDigits, List.takeWhile_append_of_pos hdigits, List.dropWhile_append_of_pos hdigits, hends.1,
    hends.2, List.append_nil]

theorem fraction?_of_endsNumber {rest : List Char} (hrest : EndsNumber rest) :
    fraction? rest = some ([], rest) := by
  unfold fraction?
  split
  · next tail => exact absurd rfl (hrest '.' rfl).2.1
  · rfl

theorem exponent?_of_endsNumber {rest : List Char} (hrest : EndsNumber rest) :
    exponent? rest = some ([], rest) := by
  unfold exponent?
  split
  · next c tail =>
    obtain ⟨-, -, he, hE⟩ := hrest c rfl
    rw [if_neg (by simp [he, hE])]
  · rfl

theorem wholePart?_digits (n : ℕ) {rest : List Char} (hrest : EndsNumber rest) :
    wholePart? (Decimal.digits n ++ rest) = some (Decimal.digits n, rest) := by
  by_cases hn : n = 0
  · subst hn
    rw [Decimal.digits]
    rfl
  · have htake := takeDigits_append (fun c => Decimal.isDigit_of_mem_digits (n := n)) hrest
    unfold wholePart?
    split
    · next tail heq =>
      obtain ⟨c, more, hdigits⟩ := List.exists_cons_of_ne_nil (Decimal.digits_ne_nil n)
      rw [hdigits, List.cons_append] at heq
      obtain ⟨rfl, -⟩ := List.cons.inj heq
      exact absurd (congrArg List.head? hdigits) (Decimal.head?_digits hn)
    · rw [someDigits?, htake]
      split
      · next heq => exact absurd (Prod.mk.inj heq).1 (Decimal.digits_ne_nil n)
      · rfl

theorem unsigned?_digits (n : ℕ) {rest : List Char} (hrest : EndsNumber rest) :
    unsigned? (Decimal.digits n ++ rest) = some (Decimal.digits n, rest) := by
  simp [unsigned?, wholePart?_digits n hrest, fraction?_of_endsNumber hrest, exponent?_of_endsNumber hrest]

theorem takeNumber_digits (n : ℕ) {rest : List Char} (hrest : EndsNumber rest) :
    takeNumber (Decimal.digits n ++ rest) = some (Decimal.digits n, rest) := by
  unfold takeNumber
  split
  · next tail heq =>
    obtain ⟨c, more, hdigits⟩ := List.exists_cons_of_ne_nil (Decimal.digits_ne_nil n)
    have hc : c.isDigit = true := Decimal.isDigit_of_mem_digits (n := n) (by simp [hdigits])
    rw [hdigits, List.cons_append] at heq
    obtain ⟨rfl, -⟩ := List.cons.inj heq
    cases hc
  · exact unsigned?_digits n hrest

theorem token?_quote (text : List Char) :
    token? ('"' :: text) = (takeString text).map fun (literal, rest) => (.string literal, rest) := rfl

theorem token?_string (text rest : List Char) :
    token? (quoted (escape text) rest) = some (.string (escape text), rest) := by
  rw [quoted, token?_quote, takeString_escape, Option.map_some]

theorem token?_digits (n : ℕ) {rest : List Char} (hrest : EndsNumber rest) :
    token? (Decimal.digits n ++ rest) = some (.number (Decimal.digits n), rest) := by
  obtain ⟨c, more, hdigits⟩ := List.exists_cons_of_ne_nil (Decimal.digits_ne_nil n)
  have hc : c.isDigit = true := Decimal.isDigit_of_mem_digits (n := n) (by simp [hdigits])
  have htake := takeNumber_digits n hrest
  rw [hdigits, List.cons_append] at htake ⊢
  unfold token?
  split
  case h_9 heq =>
    obtain ⟨rfl, rfl⟩ := List.cons.inj heq
    rw [if_pos (Or.inr hc), htake]
    rfl
  case h_1 heq => cases heq
  all_goals
    next heq =>
      obtain ⟨rfl, -⟩ := List.cons.inj heq
      cases hc

end Token

/-! ### The reader on a text -/

/-- Where a text leads the reader from a situation. -/
def runFrom (reader : Reader) (text : List Char) : Option Reader :=
  (tokens? text).bind fun tokens => tokens.foldlM Reader.feed reader

/-- Taking a text apart, as one equation. -/
theorem tokens?_eq (text : List Char) :
    tokens? text =
      match text.dropWhile Token.isBlank with
      | [] => some []
      | c :: behind =>
        (Token.token? (c :: behind)).bind fun (token, rest) => (tokens? rest).map (token :: ·) := by
  rw [tokens?.eq_def]
  split
  · next h => rw [h]
  · next c behind h =>
    rw [h]
    split
    · next hnone => simp [hnone]
    · next hsome => simp [hsome]

@[simp] theorem runFrom_nil (reader : Reader) : runFrom reader [] = some reader := by
  rw [runFrom, tokens?_eq]
  rfl

theorem tokens?_of_isBlank {c : Char} (h : Token.isBlank c = true) (text : List Char) :
    tokens? (c :: text) = tokens? text := by
  rw [tokens?_eq, tokens?_eq text, List.dropWhile_cons_of_pos h]

theorem tokens?_of_token? {c : Char} {text rest : List Char} {token : Token} (hc : Token.isBlank c = false)
    (h : Token.token? (c :: text) = some (token, rest)) :
    tokens? (c :: text) = (tokens? rest).map (token :: ·) := by
  rw [tokens?_eq, List.dropWhile_cons_of_neg (by simp [hc])]
  simp only [h, Option.bind_some]

theorem runFrom_of_isBlank {c : Char} (h : Token.isBlank c = true) (reader : Reader) (text : List Char) :
    runFrom reader (c :: text) = runFrom reader text := by
  rw [runFrom, tokens?_of_isBlank h, runFrom]

/-- A token leads the reader to its next situation, in front of what stands behind the token. -/
theorem runFrom_of_feed {c : Char} {text rest : List Char} {token : Token} {reader next : Reader}
    (hc : Token.isBlank c = false) (htoken : Token.token? (c :: text) = some (token, rest))
    (hfeed : reader.feed token = some next) : runFrom reader (c :: text) = runFrom next rest := by
  rw [runFrom, runFrom, tokens?_of_token? hc htoken]
  cases tokens? rest with
  | none => rfl
  | some tokens => simp [List.foldlM_cons, hfeed]

@[simp] theorem runFrom_newLine (reader : Reader) (level : ℕ) (text : List Char) :
    runFrom reader (newLine level text) = runFrom reader text := by
  rw [newLine, runFrom_of_isBlank rfl]
  induction 2 * level with
  | zero => rfl
  | succ n ih => rw [List.replicate_succ, List.cons_append, runFrom_of_isBlank rfl, ih]

theorem runFrom_quoted {reader next : Reader} {text : List Char} (rest : List Char)
    (hfeed : reader.feed (.string (escape text)) = some next) :
    runFrom reader (quoted (escape text) rest) = runFrom next rest :=
  runFrom_of_feed rfl (Token.token?_string text rest) hfeed

theorem runFrom_digits {reader next : Reader} {n : ℕ} {rest : List Char} (hrest : Token.EndsNumber rest)
    (hfeed : reader.feed (.number (Decimal.digits n)) = some next) :
    runFrom reader (Decimal.digits n ++ rest) = runFrom next rest := by
  have htoken := Token.token?_digits n hrest
  obtain ⟨c, more, hdigits⟩ := List.exists_cons_of_ne_nil (Decimal.digits_ne_nil n)
  have hc : c.isDigit = true := Decimal.isDigit_of_mem_digits (n := n) (by simp [hdigits])
  rw [hdigits] at htoken hfeed ⊢
  refine runFrom_of_feed ?_ htoken hfeed
  rw [← Bool.not_eq_true]
  intro hblank
  simp only [Token.isBlank, Bool.or_eq_true, decide_eq_true_eq] at hblank
  rcases hblank with ((rfl | rfl) | rfl) | rfl <;> cases hc

/-! ### Values -/

/-- A value may come next, below the frames `around`. In an array that was just opened its end may come too. -/
def Begins (reader : Reader) (around : List Frame) : Prop :=
  ∀ token, token ≠ .closeArray → reader.feed token = Reader.beginValue around token

theorem begins_beforeValue (around : List Frame) : Begins (.beforeValue around) around :=
  fun _ _ => rfl

theorem begins_arrayOpened (around : List Frame) : Begins (.arrayOpened around) (.array [] :: around) := by
  intro token htoken
  cases token with
  | closeArray => exact absurd rfl htoken
  | _ => rfl

/-- The text of a value leads past it. -/
def ReadBack (value : Json) : Prop :=
  ∀ (level : ℕ) (rest : List Char) (reader : Reader) (around : List Frame), Token.EndsNumber rest →
    Begins reader around →
    runFrom reader (indented level value rest) = runFrom (.complete value around) rest

theorem endsNumber_indentedItems (level : ℕ) (items : List Json) {rest : List Char}
    (hrest : Token.EndsNumber rest) : Token.EndsNumber (indentedItems level items rest) := by
  cases items with
  | nil => rwa [indentedItems]
  | cons item items =>
    rw [indentedItems]
    exact Token.endsNumber_comma _

theorem endsNumber_indentedMembers (level : ℕ) (members : List (List Char × Json)) {rest : List Char}
    (hrest : Token.EndsNumber rest) : Token.EndsNumber (indentedMembers level members rest) := by
  cases members with
  | nil => rwa [indentedMembers]
  | cons member members =>
    obtain ⟨key, value⟩ := member
    rw [indentedMembers]
    exact Token.endsNumber_comma _

/-- The items behind the first one, and the end of the array. -/
theorem runFrom_indentedItems {items : List Json} (h : ∀ item ∈ items, ReadBack item) (level : ℕ)
    (rest : List Char) (value : Json) (before : List Json) (around : List Frame) :
    runFrom (.complete value (.array before :: around))
        (indentedItems level items (newLine level (']' :: rest))) =
      runFrom (.complete (.array (before.reverse ++ value :: items)) around) rest := by
  induction items generalizing value before with
  | nil =>
    rw [indentedItems, runFrom_newLine, runFrom_of_feed rfl rfl rfl, List.reverse_cons]
  | cons item items ih =>
    rw [indentedItems, runFrom_of_feed rfl rfl rfl, runFrom_newLine,
      h item List.mem_cons_self _ _ _ _ (endsNumber_indentedItems _ _ (Token.endsNumber_newLine _ _))
        (begins_beforeValue _),
      ih fun i hi => h i (List.mem_cons_of_mem _ hi)]
    simp

/-- The members behind the first one, and the end of the object. -/
theorem runFrom_indentedMembers {members : List (List Char × Json)}
    (hkeys : ∀ member ∈ members, ∃ text, member.1 = escape text) (h : ∀ member ∈ members, ReadBack member.2)
    (level : ℕ) (rest key : List Char) (value : Json) (before : List (List Char × Json))
    (around : List Frame) :
    runFrom (.complete value (.object before key :: around))
        (indentedMembers level members (newLine level ('\x7d' :: rest))) =
      runFrom (.complete (.object (before.reverse ++ (key, value) :: members)) around) rest := by
  induction members generalizing key value before with
  | nil =>
    rw [indentedMembers, runFrom_newLine, runFrom_of_feed rfl rfl rfl, List.reverse_cons]
  | cons member members ih =>
    obtain ⟨key', value'⟩ := member
    obtain ⟨text, rfl⟩ : ∃ text, key' = escape text := hkeys _ List.mem_cons_self
    have hvalue : ReadBack value' := h _ List.mem_cons_self
    rw [indentedMembers, runFrom_of_feed rfl rfl rfl, runFrom_newLine, runFrom_quoted _ rfl,
      runFrom_of_feed rfl rfl rfl, runFrom_of_isBlank rfl,
      hvalue _ _ _ _ (endsNumber_indentedMembers _ _ (Token.endsNumber_newLine _ _)) (begins_beforeValue _),
      ih (fun m hm => hkeys m (List.mem_cons_of_mem _ hm)) fun m hm => h m (List.mem_cons_of_mem _ hm)]
    simp

theorem readBack_array {items : List Json} (h : ∀ item ∈ items, ReadBack item) : ReadBack (.array items) := by
  intro level rest reader around hrest hreader
  cases items with
  | nil =>
    rw [indented, runFrom_of_feed rfl rfl (hreader _ (by decide)), runFrom_of_feed rfl rfl rfl]
  | cons item items =>
    rw [indented, runFrom_of_feed rfl rfl (hreader _ (by decide)), runFrom_newLine,
      h item List.mem_cons_self _ _ _ _ (endsNumber_indentedItems _ _ (Token.endsNumber_newLine _ _))
        (begins_arrayOpened _),
      runFrom_indentedItems fun i hi => h i (List.mem_cons_of_mem _ hi)]
    rfl

theorem readBack_object {members : List (List Char × Json)}
    (hkeys : ∀ member ∈ members, ∃ text, member.1 = escape text) (h : ∀ member ∈ members, ReadBack member.2) :
    ReadBack (.object members) := by
  intro level rest reader around hrest hreader
  cases members with
  | nil =>
    rw [indented, runFrom_of_feed rfl rfl (hreader _ (by decide)), runFrom_of_feed rfl rfl rfl]
  | cons member members =>
    obtain ⟨key, value⟩ := member
    obtain ⟨text, rfl⟩ : ∃ text, key = escape text := hkeys _ List.mem_cons_self
    have hvalue : ReadBack value := h _ List.mem_cons_self
    rw [indented, runFrom_of_feed rfl rfl (hreader _ (by decide)), runFrom_newLine, runFrom_quoted _ rfl,
      runFrom_of_feed rfl rfl rfl, runFrom_of_isBlank rfl,
      hvalue _ _ _ _ (endsNumber_indentedMembers _ _ (Token.endsNumber_newLine _ _)) (begins_beforeValue _),
      runFrom_indentedMembers (fun m hm => hkeys m (List.mem_cons_of_mem _ hm))
        fun m hm => h m (List.mem_cons_of_mem _ hm)]
    rfl

/-- **Reading a printed value:** in front of any other text, at any level and below all frames. -/
theorem runFrom_indented {value : Json} (h : Written value) : ReadBack value := by
  induction h with
  | null =>
    intro level rest reader around hrest hreader
    rw [indented]
    exact runFrom_of_feed rfl rfl (hreader _ (by decide))
  | bool value =>
    intro level rest reader around hrest hreader
    cases value <;> rw [indented] <;> exact runFrom_of_feed rfl rfl (hreader _ (by decide))
  | number n =>
    intro level rest reader around hrest hreader
    rw [indented, runFrom_digits hrest (hreader _ (by simp))]
  | string text =>
    intro level rest reader around hrest hreader
    rw [indented, runFrom_quoted _ (hreader _ (by simp))]
  | array _ ih => exact readBack_array ih
  | object hkeys _ ih => exact readBack_object hkeys ih

/-- **A printed value is read back.** -/
theorem parse?_pretty {value : Json} (h : Written value) : parse? value.pretty = some value := by
  have hrun : runFrom (.beforeValue []) (indented 0 value []) = some (.complete value []) := by
    rw [runFrom_indented h _ _ _ _ Token.endsNumber_nil (begins_beforeValue []), runFrom_nil]
  rw [parse?, pretty, String.toList_ofList]
  rw [runFrom, Option.bind_eq_some_iff] at hrun
  obtain ⟨tokens, htokens, hfold⟩ := hrun
  rw [htokens, Option.bind_some, ofTokens?, hfold]
  rfl

end Json

end PageGraph
