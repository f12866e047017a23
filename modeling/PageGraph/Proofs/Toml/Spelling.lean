import PageGraph.Proofs.Lists
import PageGraph.Toml.Bare
import PageGraph.Toml.Quoted

/-!
# Spelled texts are read back

A character may be written into a basic string in several ways: as it is, if it is neither a quote nor a backslash nor a
control character, behind a backslash by a letter of its own, or by its code in four or eight hexadecimal digits. A text
is spelled character by character, and whatever way is chosen for each of them, the string is read as that text.

* `Spells` : the ways to write a character;
* `basicString?_spelled`, `string?_quoted` : a spelled text is read back, up to its closing quote;
* `escape` : one way to write every character.
-/

namespace PageGraph.Toml

/-- The letters that stand for characters behind a backslash, each with its character. -/
def letters : List (Char × Char) :=
  [('"', '"'), ('\\', '\\'), ('b', '\x08'), ('t', '\t'), ('n', '\n'), ('f', '\x0C'), ('r', '\r')]

/-- The ways to write a character into a basic string. -/
inductive Spells : Char → List Char → Prop
  /-- As it is. -/
  | plain {c : Char} (hquote : c ≠ '"') (hbackslash : c ≠ '\\') (hcontrol : isControl c = false) : Spells c [c]
  /-- By its letter. -/
  | letter {c e : Char} (h : (e, c) ∈ letters) : Spells c ['\\', e]
  /-- By its code in four digits. -/
  | short {c : Char} {digits : List Char} (hlength : digits.length = 4) (hdigits : ∀ d ∈ digits, isDigitIn 16 d = true)
    (hvalue : valueIn 16 digits = c.toNat) : Spells c ('\\' :: 'u' :: digits)
  /-- By its code in eight digits. -/
  | long {c : Char} {digits : List Char} (hlength : digits.length = 8) (hdigits : ∀ d ∈ digits, isDigitIn 16 d = true)
    (hvalue : valueIn 16 digits = c.toNat) : Spells c ('\\' :: 'U' :: digits)

variable {c : Char} {digits spelling text rest : List Char} {spell : Char → List Char}

/-! ### Codes -/

/-- The digits of a code are read as its character. -/
theorem charOfHex?_eq_some (hdigits : ∀ d ∈ digits, isDigitIn 16 d = true) (hvalue : valueIn 16 digits = c.toNat) :
    charOfHex? digits = some c := by
  have hread : digits.mapM Json.hexValue? = some (digits.map fun d => (Json.hexValue? d).getD 0) := by
    refine mapM_of_forall_eq_some fun d hd => ?_
    obtain ⟨value, hd, -⟩ := (Option.any_eq_true _ _).1 (hdigits d hd)
    rw [hd, Option.getD_some]
  rw [valueIn, ← List.foldl_map (f := fun d => (Json.hexValue? d).getD 0) (g := fun n value => n * 16 + value)] at hvalue
  rw [charOfHex?, hread, Option.bind_some, hvalue, if_pos, Char.ofNat_toNat]
  exact c.valid

/-! ### Strings -/

/-- **A spelled character** is the first one of the string that is read. -/
theorem basicString?_append (h : Spells c spelling) (rest : List Char) :
    basicString? (spelling ++ rest) = (basicString? rest).map fun (text, rest) => (c :: text, rest) := by
  cases h with
  | plain hquote hbackslash hcontrol => simp [basicString?, hbackslash, hcontrol]
  | letter h =>
    simp only [letters, List.mem_cons, Prod.mk.injEq, List.not_mem_nil, or_false] at h
    rcases h with ⟨rfl, rfl⟩ | ⟨rfl, rfl⟩ | ⟨rfl, rfl⟩ | ⟨rfl, rfl⟩ | ⟨rfl, rfl⟩ | ⟨rfl, rfl⟩ | ⟨rfl, rfl⟩
    all_goals cases hread : basicString? rest <;> simp [basicString?, shortEscape?, hread]
  | @short digits hlength hdigits hvalue =>
    have hcode := charOfHex?_eq_some hdigits hvalue
    match digits, hlength, hcode with
    | [a, b, c, d], _, hcode =>
      simp only [List.cons_append, List.nil_append, basicString?, hcode]
      cases basicString? rest <;> rfl
  | @long digits hlength hdigits hvalue =>
    have hcode := charOfHex?_eq_some hdigits hvalue
    match digits, hlength, hcode with
    | [a, b, c, d, e, f, g, h], _, hcode =>
      simp only [List.cons_append, List.nil_append, basicString?, hcode]
      cases basicString? rest <;> rfl

/-- **A spelled text** is read back, up to the quote behind it. -/
theorem basicString?_spelled (hspell : ∀ c, Spells c (spell c)) (text rest : List Char) :
    basicString? (text.flatMap spell ++ '"' :: rest) = some (text, rest) := by
  induction text with
  | nil => rfl
  | cons c text ih => rw [List.flatMap_cons, List.append_assoc, basicString?_append (hspell c), ih, Option.map_some]

/-- A spelled character starts with something, and not with a quote. -/
theorem Spells.exists_cons (h : Spells c spelling) : ∃ first tail, spelling = first :: tail ∧ first ≠ '"' := by
  cases h with
  | plain hquote => exact ⟨c, [], rfl, hquote⟩
  | letter => exact ⟨'\\', _, rfl, by decide⟩
  | short => exact ⟨'\\', _, rfl, by decide⟩
  | long => exact ⟨'\\', _, rfl, by decide⟩

/-- A text between quotes. -/
def quoted (spell : Char → List Char) (text : String) : List Char := '"' :: (text.toList.flatMap spell ++ ['"'])

/-- Behind its opening quote a text does not look like the opening quotes of a string over several lines: it starts with
no quote, and where it is empty, only its closing quote is there. -/
theorem spelled_ne_quotes (hspell : ∀ c, Spells c (spell c)) (text : List Char) (hrest : rest.head? ≠ some '"')
    (tail : List Char) : text.flatMap spell ++ '"' :: rest ≠ '"' :: '"' :: tail := by
  intro heq
  cases text with
  | nil =>
    rw [List.flatMap_nil, List.nil_append, List.cons.injEq] at heq
    exact hrest (congrArg List.head? heq.2)
  | cons c text =>
    obtain ⟨first, spelling, hc, hfirst⟩ := (hspell c).exists_cons
    rw [List.flatMap_cons, hc] at heq
    exact hfirst (List.cons.inj heq).1

/-- **A quoted text** is read as a string, unless another quote stands behind it. -/
theorem string?_quoted (hspell : ∀ c, Spells c (spell c)) (text : String) (hrest : rest.head? ≠ some '"') :
    string? (quoted spell text ++ rest) = some (text.toList, rest) := by
  rw [quoted, List.cons_append, List.append_assoc, List.singleton_append, string?.eq_def]
  split
  · next tail heq => exact absurd (List.cons.inj heq).2 (spelled_ne_quotes hspell _ hrest tail)
  · next heq => simp at heq
  · next heq => rw [← (List.cons.inj heq).2, basicString?_spelled hspell]
  · next heq => simp at heq
  · next hbasic _ => exact absurd rfl (hbasic _)

/-- A spelled character holds no carriage return. -/
theorem Spells.return_notMem (h : Spells c spelling) : '\r' ∉ spelling := by
  intro hmem
  cases h with
  | plain _ _ hcontrol =>
    obtain rfl := List.mem_singleton.1 hmem
    cases hcontrol
  | letter h =>
    simp only [List.mem_cons, List.not_mem_nil, or_false] at hmem
    rcases hmem with heq | rfl
    · cases heq
    · simp [letters] at h
  | @short digits _ hdigits =>
    have hdigit : '\r' ∈ digits := by simpa using hmem
    exact absurd (hdigits _ hdigit) (by decide)
  | @long digits _ hdigits =>
    have hdigit : '\r' ∈ digits := by simpa using hmem
    exact absurd (hdigits _ hdigit) (by decide)

theorem return_notMem_quoted (hspell : ∀ c, Spells c (spell c)) (text : String) : '\r' ∉ quoted spell text := by
  have htext : '\r' ∉ text.toList.flatMap spell := by
    intro hmem
    obtain ⟨c, -, hc⟩ := List.mem_flatMap.1 hmem
    exact (hspell c).return_notMem hc
  simp [quoted, htext]

/-! ### One way to spell -/

/-- A character as it is written: the quote and the backslash behind a backslash, control characters and the tab by their
codes. -/
def escape (c : Char) : List Char :=
  if c = '"' ∨ c = '\\' then ['\\', c]
  else if isControl c ∨ c = '\t' then
    ['\\', 'u', '0', '0', Json.hexDigit (c.toNat / 16), Json.hexDigit c.toNat]
  else [c]

theorem isDigitIn_hexDigit (n : ℕ) : isDigitIn 16 (Json.hexDigit n) = true := by
  rw [isDigitIn, Json.hexValue?_hexDigit, Option.any_some, decide_eq_true_eq]
  exact Nat.mod_lt n (by decide)

/-- The two digits of a code below 256, behind two zeros. -/
theorem valueIn_hexDigits {n : ℕ} (h : n < 256) :
    valueIn 16 ['0', '0', Json.hexDigit (n / 16), Json.hexDigit n] = n := by
  have hzero : Json.hexValue? '0' = some 0 := by decide
  simp only [valueIn, List.foldl_cons, List.foldl_nil, Json.hexValue?_hexDigit, hzero, Option.getD_some]
  omega

theorem spells_escape (c : Char) : Spells c (escape c) := by
  rw [escape]
  split
  · next h =>
    refine .letter ?_
    rcases h with rfl | rfl <;> decide
  split
  · next h =>
    have hlt : c.toNat < 256 := by
      rcases h with h | rfl
      · simp only [isControl, Bool.or_eq_true, Bool.and_eq_true, decide_eq_true_eq] at h
        omega
      · decide
    refine .short rfl (fun d hd => ?_) (valueIn_hexDigits hlt)
    simp only [List.mem_cons, List.not_mem_nil, or_false] at hd
    rcases hd with rfl | rfl | rfl | rfl
    · decide
    · decide
    · exact isDigitIn_hexDigit _
    · exact isDigitIn_hexDigit _
  · next hquote hcontrol =>
    rw [not_or] at hquote hcontrol
    exact .plain hquote.1 hquote.2 (by simpa using hcontrol.1)

end PageGraph.Toml
