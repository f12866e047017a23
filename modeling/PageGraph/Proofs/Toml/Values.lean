import PageGraph.Proofs.Text.Decimal
import PageGraph.Proofs.Toml.Spelling
import PageGraph.Toml.Grammar

/-!
# Written values are read back

The values of a configuration are texts, lists of texts and numbers. A text is written as a basic string, however its
characters are spelled, a list as an array of such strings, and a number in decimal digits. Each is read back where a
line ends behind it.

* `Datum`, `Datum.toText` : a value, and how it is written;
* `ofRun?_digits`, `listUntil?_listed` : numerals and lists of items are read back;
* `value?_toText` : a written value is read back.
-/

namespace PageGraph.Toml

open Text

/-- A value of a configuration. -/
inductive Datum where
  | text (value : String)
  | texts (values : List String)
  | count (n : ℕ)
  deriving DecidableEq, Repr

variable {run rest : List Char} {spell : Char → List Char} {build : TableBuilder} {room : ℕ}

/-! ### Numerals -/

/-- Digits are no date, because a date holds minus signs. -/
theorem isDate_eq_false (h : ∀ c ∈ run, c.isDigit = true) : isDate run = false := by
  rw [isDate.eq_def]
  split
  · exact absurd (h '-' (by simp)) (by decide)
  · rfl

/-- Digits are no date and no time, because a time holds a colon. -/
theorem isDateTime_eq_false (h : ∀ c ∈ run, c.isDigit = true) : isDateTime run = false := by
  have htime : isTime run = false := by
    rw [isTime, afterTime?.eq_def]
    split
    · exact absurd (h ':' (by simp)) (by decide)
    · rfl
  have hboth : isDateAndTime run = false := by
    rw [isDateAndTime, isDate_eq_false fun c hc => h c (List.mem_of_mem_take hc), Bool.false_and]
  rw [isDateTime, isDate_eq_false h, htime, hboth]
  rfl

/-- In decimal digits the value is that of the numeral. -/
theorem valueIn_ten (h : ∀ c ∈ run, c.isDigit = true) : valueIn 10 run = Decimal.value run := by
  refine List.foldl_ext _ _ _ fun n c hc => ?_
  rw [Json.hexValue?, if_pos (h c hc), Option.getD_some, Decimal.digitValue]

/-- A run of digits is taken as it is. -/
theorem digits?_eq_some (h : ∀ c ∈ run, c.isDigit = true) (hne : run ≠ []) : digits? Char.isDigit run = some run := by
  have hgroups : run.splitOnP (fun c => decide (c = '_')) = [run] :=
    List.splitOnP_eq_singleton fun c hc => decide_eq_false (ne_of_isKind (h c hc) (by decide))
  have hall : run.all Char.isDigit = true := List.all_eq_true.2 h
  rw [digits?, hgroups]
  simp [hne, hall]

theorem plainDigits?_digits (n : ℕ) : plainDigits? (Decimal.digits n) = some (Decimal.digits n) := by
  rw [plainDigits?, digits?_eq_some (fun _ => Decimal.isDigit_of_mem_digits) (Decimal.digits_ne_nil n), Option.bind_some]
  split
  · next c rest hdigits =>
    have hzero : n = 0 := by
      by_contra hne
      exact Decimal.head?_digits hne (by rw [hdigits]; rfl)
    rw [hzero, Decimal.digits] at hdigits
    simp at hdigits
  · rfl

theorem integer?_digits (n : ℕ) : integer? (Decimal.digits n) = some (n : Int) := by
  have hdigit : ∀ c ∈ Decimal.digits n, c.isDigit = true := fun _ => Decimal.isDigit_of_mem_digits
  have hsign : takeSign (Decimal.digits n) = (false, Decimal.digits n) := by
    rw [takeSign.eq_def]
    split
    · next hdigits => exact absurd (hdigit '-' (by simp [hdigits])) (by decide)
    · next hdigits => exact absurd (hdigit '+' (by simp [hdigits])) (by decide)
    · rfl
  rw [integer?.eq_def]
  split
  · next hdigits => exact absurd (hdigit 'x' (by simp [hdigits])) (by decide)
  · next hdigits => exact absurd (hdigit 'o' (by simp [hdigits])) (by decide)
  · next hdigits => exact absurd (hdigit 'b' (by simp [hdigits])) (by decide)
  · simp [hsign, plainDigits?_digits, valueIn_ten hdigit, Decimal.value_digits]

/-- **A numeral** says its number. -/
theorem ofRun?_digits (n : ℕ) : ofRun? (Decimal.digits n) = some (.integer n) := by
  have hdigit : ∀ c ∈ Decimal.digits n, c.isDigit = true := fun _ => Decimal.isDigit_of_mem_digits
  have htrue : Decimal.digits n ≠ "true".toList := fun heq => absurd (hdigit 't' (by simp [heq])) (by decide)
  have hfalse : Decimal.digits n ≠ "false".toList := fun heq => absurd (hdigit 'f' (by simp [heq])) (by decide)
  rw [ofRun?, if_neg htrue, if_neg hfalse, if_neg (by simp [isDateTime_eq_false hdigit]), integer?_digits]

/-- Digits are a run, up to a character that stands in none. -/
theorem takeRun_digits (h : ∀ c ∈ run, c.isDigit = true) (hrest : ∀ c ∈ rest.head?, isRunChar c = false ∧ c ≠ ' ') :
    takeRun (run ++ rest) = (run, rest) := by
  have hrun : ∀ c ∈ run, isRunChar c = true := fun c hc => by simp [isRunChar, Char.isAlphanum, h c hc]
  rw [takeRun, takeWhile_append_of_head? hrun fun c hc => (hrest c hc).1,
    dropWhile_append_of_head? hrun fun c hc => (hrest c hc).1]
  split
  · exact absurd rfl (hrest ' ' rfl).2
  · rfl

/-! ### Values without brackets -/

/-- A value that starts with no bracket is a string or a run. -/
theorem value?_cons {c : Char} (hbracket : c ≠ '[') (hbrace : c ≠ '\x7b') (rest : List Char) :
    value? build room (c :: rest) =
      if c = '"' ∨ c = '\'' then (string? (c :: rest)).map fun (text, rest) => (.string (String.ofList text), rest)
      else (ofRun? (takeRun (c :: rest)).1).map fun value => (value, (takeRun (c :: rest)).2) := by
  rw [value?.eq_def]
  split
  · next heq => exact absurd (List.cons.inj heq).1 hbracket
  · next heq => exact absurd (List.cons.inj heq).1 hbrace
  · next heq =>
    obtain ⟨rfl, rfl⟩ := List.cons.inj heq
    rfl
  · next heq => cases heq

/-- **A quoted text** is a value. -/
theorem value?_quoted (hspell : ∀ c, Spells c (spell c)) (text : String) (hrest : rest.head? ≠ some '"') :
    value? build room (quoted spell text ++ rest) = some (.string text, rest) := by
  have hread := string?_quoted hspell text hrest
  rw [quoted, List.cons_append] at hread ⊢
  rw [value?_cons (by decide) (by decide), if_pos (.inl rfl), hread, Option.map_some]
  dsimp only
  rw [String.ofList_toList]

/-- **A numeral** is a value. -/
theorem value?_digits (n : ℕ) (hrest : ∀ c ∈ rest.head?, isRunChar c = false ∧ c ≠ ' ') :
    value? build room (Decimal.digits n ++ rest) = some (.integer n, rest) := by
  have hdigit : ∀ c ∈ Decimal.digits n, c.isDigit = true := fun _ => Decimal.isDigit_of_mem_digits
  have hrun := takeRun_digits hdigit hrest
  have hvalue := ofRun?_digits n
  obtain ⟨c, digits, hdigits⟩ := List.exists_cons_of_ne_nil (Decimal.digits_ne_nil n)
  have hc : c.isDigit = true := hdigit c (by simp [hdigits])
  have hquote : ¬(c = '"' ∨ c = '\'') := not_or.2 ⟨ne_of_isKind hc (by decide), ne_of_isKind hc (by decide)⟩
  rw [hdigits] at hvalue
  rw [hdigits, List.cons_append] at hrun ⊢
  rw [value?_cons (ne_of_isKind hc (by decide)) (ne_of_isKind hc (by decide)), if_neg hquote, hrun, hvalue,
    Option.map_some]

/-! ### Lists -/

variable {α β : Type} {close : Char} {item? : List Char → Option (β × List Char)} {write : α → List Char}
  {value : α → β} {text : List Char}

/-- A text starts something: it is not passed over. -/
def Starts (text : List Char) : Prop :=
  ∃ c rest, text = c :: rest ∧ isLineEnd c = false ∧ isBlank c = false ∧ c ≠ '#'

/-- The characters of a bare key start something. -/
theorem starts_cons {c : Char} (h : isBareKey c = true) (rest : List Char) : Starts (c :: rest) := by
  have hne : ∀ d, isBareKey d = false → c ≠ d := fun _ => ne_of_isKind h
  refine ⟨c, rest, rfl, ?_, ?_, hne '#' (by decide)⟩
  · simp [isLineEnd, hne '\n' (by decide), hne '\r' (by decide)]
  · simp [isBlank, hne ' ' (by decide), hne '\t' (by decide)]

theorem Starts.append (h : Starts text) (behind : List Char) : Starts (text ++ behind) := by
  obtain ⟨c, rest, rfl, hc⟩ := h
  exact ⟨c, rest ++ behind, rfl, hc⟩

theorem Starts.skipTrivia (h : Starts text) : skipTrivia false text = some text := by
  obtain ⟨c, rest, rfl, hend, hblank, hcomment⟩ := h
  simp [Toml.skipTrivia, hend, hblank, hcomment]

/-- Items with a comma and a blank between them, up to a closing character. -/
def listed (close : Char) (write : α → List Char) (items : List α) : List Char :=
  [',', ' '].intercalate (items.map write) ++ [close]

theorem listed_singleton (close : Char) (item : α) : listed close write [item] = write item ++ [close] := by simp [listed]

theorem listed_cons_cons (close : Char) (item next : α) (items : List α) :
    listed close write (item :: next :: items) = write item ++ ',' :: ' ' :: listed close write (next :: items) := by
  simp [listed, List.intercalate_cons_cons]

theorem starts_listed (close : Char) {item : α} (h : Starts (write item)) (items : List α) :
    Starts (listed close write (item :: items)) := by
  cases items with
  | nil => exact listed_singleton close item ▸ h.append [close]
  | cons next items => exact listed_cons_cons close item next items ▸ h.append _

/-- Listed items hold what the items hold, commas, blanks and the closing character. -/
theorem notMem_listed {c : Char} {items : List α} (hc : c ∉ [',', ' ', close]) (h : ∀ item ∈ items, c ∉ write item) :
    c ∉ listed close write items := by
  simp only [List.mem_cons, List.not_mem_nil, or_false, not_or] at hc
  induction items with
  | nil => simp [listed, hc.2.2]
  | cons item items ih =>
    have hitem := h item List.mem_cons_self
    have hitems := ih fun other hother => h other (List.mem_cons_of_mem item hother)
    cases items with
    | nil => simp [listed_singleton, hitem, hc.2.2]
    | cons next items => simp [listed_cons_cons, hitem, hc.1, hc.2.1, hitems]

theorem length_le_length_listed (close : Char) (write : α → List Char) (items : List α) :
    items.length ≤ (listed close write items).length := by
  induction items with
  | nil => exact Nat.zero_le _
  | cons item items ih =>
    cases items with
    | nil => simp [listed_singleton]
    | cons next items =>
      rw [listed_cons_cons]
      simp only [List.length_append, List.length_cons] at ih ⊢
      omega

/-- **Listed items** are read back, if each of them is in front of a comma and of the closing character. -/
theorem listUntil?_listed (hclose : Starts [close]) (hcomma : close ≠ ',') {items : List α}
    (hstarts : ∀ item ∈ items, Starts (write item) ∧ (write item).head? ≠ some close)
    (hread : ∀ item ∈ items, ∀ c behind, c = ',' ∨ c = close →
      item? (write item ++ c :: behind) = some (value item, c :: behind))
    {most : ℕ} (hmost : items.length < most) (htext : skipTrivia false text = some (listed close write items ++ rest)) :
    listUntil? close item? most text = some (items.map value, rest) := by
  induction items generalizing most text with
  | nil =>
    obtain ⟨most, rfl⟩ := Nat.exists_eq_add_one.2 hmost
    have htext : skipTrivia false text = some (close :: rest) := htext
    simp [listUntil?, htext]
  | cons item items ih =>
    obtain ⟨most, rfl⟩ := Nat.exists_eq_add_one.2 (Nat.zero_lt_of_lt hmost)
    obtain ⟨⟨c, tail, hitem, -⟩, hhead⟩ := hstarts item List.mem_cons_self
    have hc : c ≠ close := by simpa [hitem] using hhead
    cases items with
    | nil =>
      have hlast := hread item List.mem_cons_self close rest (.inr rfl)
      have hend := (hclose.append rest).skipTrivia
      rw [listed_singleton, List.append_assoc, hitem, List.cons_append] at htext
      rw [hitem, List.cons_append] at hlast
      rw [List.singleton_append] at htext hend
      simp [listUntil?, htext, hc, hlast, hend]
    | cons next items =>
      have hmem : ∀ other ∈ next :: items, other ∈ item :: next :: items := fun _ => List.mem_cons_of_mem item
      have hnext := ((starts_listed close (hstarts next (hmem next List.mem_cons_self)).1 items).append rest)
      have hfirst := hread item List.mem_cons_self ',' (' ' :: (listed close write (next :: items) ++ rest)) (.inl rfl)
      have hskip : skipTrivia false (' ' :: (listed close write (next :: items) ++ rest)) =
        some (listed close write (next :: items) ++ rest) := hnext.skipTrivia
      have hitems := ih (fun other hother => hstarts other (hmem other hother))
        (fun other hother => hread other (hmem other hother)) (Nat.lt_of_succ_lt_succ hmost) hskip
      have hend : skipTrivia false (',' :: ' ' :: (listed close write (next :: items) ++ rest)) =
        some (',' :: ' ' :: (listed close write (next :: items) ++ rest)) := Starts.skipTrivia ⟨',', _, rfl, by decide⟩
      rw [listed_cons_cons, List.append_assoc, List.cons_append, List.cons_append, hitem, List.cons_append] at htext
      rw [hitem, List.cons_append] at hfirst
      simp [listUntil?, htext, hc, hfirst, hend, hcomma.symm, hitems]

/-! ### Written values -/

theorem starts_quoted (text : String) : Starts (quoted spell text) := ⟨'"', _, rfl, by decide⟩

/-- **A list of texts** is a value. -/
theorem value?_texts (hspell : ∀ c, Spells c (spell c)) (values : List String) :
    value? build (room + 1) ('[' :: (listed ']' (quoted spell) values ++ rest)) =
      some (.array (values.map .string), rest) := by
  have hread : ∀ text ∈ values, ∀ c behind, c = ',' ∨ c = ']' →
      value? build room (quoted spell text ++ c :: behind) = some (.string text, c :: behind) := by
    intro text _ c behind hc
    refine value?_quoted hspell text ?_
    rcases hc with rfl | rfl <;> simp
  have hstarts : ∀ text ∈ values, Starts (quoted spell text) ∧ (quoted spell text).head? ≠ some ']' :=
    fun text _ => ⟨starts_quoted text, by simp [quoted]⟩
  have hskip : skipTrivia false (listed ']' (quoted spell) values ++ rest) =
      some (listed ']' (quoted spell) values ++ rest) := by
    cases values with
    | nil => exact Starts.skipTrivia ⟨']', rest, rfl, by decide⟩
    | cons text values => exact ((starts_listed ']' (starts_quoted text) values).append rest).skipTrivia
  have hlength := length_le_length_listed ']' (quoted spell) values
  have hmost : values.length < (listed ']' (quoted spell) values ++ rest).length + 1 := by
    rw [List.length_append]
    omega
  rw [value?, listUntil?_listed ⟨']', [], rfl, by decide⟩ (by decide) hstarts hread hmost hskip, Option.map_some]

namespace Datum

/-- The value in TOML. -/
def toToml : Datum → Toml
  | .text value => .string value
  | .texts values => .array (values.map .string)
  | .count n => .integer n

/-- The value as it is written, with a way to spell characters. -/
def toText (spell : Char → List Char) : Datum → List Char
  | .text value => quoted spell value
  | .texts values => '[' :: listed ']' (quoted spell) values
  | .count n => Decimal.digits n

theorem starts_toText (datum : Datum) : Starts (datum.toText spell) := by
  cases datum with
  | text value => exact starts_quoted value
  | texts values => exact ⟨'[', _, rfl, by decide⟩
  | count n =>
    obtain ⟨c, digits, hdigits⟩ := List.exists_cons_of_ne_nil (Decimal.digits_ne_nil n)
    have hc : c.isDigit = true := Decimal.isDigit_of_mem_digits (n := n) (by simp [hdigits])
    rw [toText, hdigits]
    exact starts_cons (by simp [isBareKey, Char.isAlphanum, hc]) digits

/-- **A written value** is read back where its line ends. -/
theorem value?_toText (hspell : ∀ c, Spells c (spell c)) (datum : Datum) (rest : List Char) :
    value? build (room + 1) (datum.toText spell ++ '\n' :: rest) = some (datum.toToml, '\n' :: rest) := by
  cases datum with
  | text value => exact value?_quoted hspell value (by simp)
  | texts values => exact value?_texts hspell values
  | count n => exact value?_digits n (by simp [isRunChar])

theorem return_notMem_toText (hspell : ∀ c, Spells c (spell c)) (datum : Datum) : '\r' ∉ datum.toText spell := by
  cases datum with
  | text value => exact return_notMem_quoted hspell value
  | texts values =>
    have hlisted : '\r' ∉ listed ']' (quoted spell) values :=
      notMem_listed (by decide) fun text _ => return_notMem_quoted hspell text
    simpa [toText] using hlisted
  | count n =>
    intro hmem
    exact absurd (Decimal.isDigit_of_mem_digits hmem) (by decide)

end Datum

end PageGraph.Toml
