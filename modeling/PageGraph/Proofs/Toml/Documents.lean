import PageGraph.Proofs.Toml.Values
import PageGraph.Toml.Document
import Mathlib.Data.List.Nodup

/-!
# Written documents are read back

A document is written line by line: entries at the top, and then tables, each a header with its entries behind it. All
of its keys are bare, and no table says one of them twice.

* `Line`, `document` : the lines of a document;
* `statements?_lines` : its lines are read as statements, one by one;
* `extendAll_entryLines`, `extendAll_tableLines` : the statements make up the tables that they were written from;
* `parse?_document` : a written document is read back, with its entries in the order in which they are written.
-/

namespace PageGraph.Toml

variable {rest : List Char} {spell : Char → List Char} {build : TableBuilder}

/-! ### Keys -/

section

variable {key : String}

/-- A key that needs no quotes. -/
def IsBare (key : String) : Prop := key.toList ≠ [] ∧ ∀ c ∈ key.toList, isBareKey c = true

instance : DecidablePred IsBare := fun key =>
  decidable_of_iff (key.toList ≠ [] ∧ key.toList.all isBareKey = true) (by rw [List.all_eq_true, IsBare])

/-- Keys that can be written into one table: they need no quotes, and none of them stands there twice. -/
structure AreKeys (keys : List String) : Prop where
  bare : ∀ key ∈ keys, IsBare key
  nodup : keys.Nodup

theorem IsBare.exists_cons (h : IsBare key) : ∃ c tail, key.toList = c :: tail ∧ isBareKey c = true := by
  obtain ⟨c, tail, htail⟩ := List.exists_cons_of_ne_nil h.1
  exact ⟨c, tail, htail, h.2 c (by simp [htail])⟩

theorem IsBare.starts (h : IsBare key) (rest : List Char) : Starts (key.toList ++ rest) := by
  obtain ⟨c, tail, hkey, hc⟩ := h.exists_cons
  rw [hkey, List.cons_append]
  exact starts_cons hc (tail ++ rest)

theorem Starts.skipBlanks {text : List Char} (h : Starts text) : skipBlanks text = text := by
  obtain ⟨c, rest, rfl, -, hblank, -⟩ := h
  rw [Toml.skipBlanks, List.dropWhile_cons_of_neg (by simp [hblank])]

/-- A bare key is read up to a character that stands in none. -/
theorem key?_bare (h : IsBare key) (hrest : ∀ c ∈ rest.head?, isBareKey c = false) :
    key? (key.toList ++ rest) = some (key, rest) := by
  have htake := takeWhile_append_of_head? h.2 hrest
  have hdrop := dropWhile_append_of_head? h.2 hrest
  obtain ⟨c, tail, hkey, hc⟩ := h.exists_cons
  rw [key?.eq_def]
  split
  · next heq =>
    rw [hkey, List.cons_append] at heq
    exact absurd (List.cons.inj heq).1 (ne_of_isKind hc (by decide))
  · next heq =>
    rw [hkey, List.cons_append] at heq
    exact absurd (List.cons.inj heq).1 (ne_of_isKind hc (by decide))
  · rw [htake, hdrop, if_neg (by simp [hkey]), String.ofList_toList]

/-- A bare key is a path, unless a dot follows it. -/
theorem keyPath?_bare (h : IsBare key) (hrest : ∀ c ∈ rest.head?, isBareKey c = false)
    (hdot : (skipBlanks rest).head? ≠ some '.') : keyPath? (key.toList ++ rest) = some ([key], skipBlanks rest) := by
  rw [keyPath?, maxKeys, keyPathUpTo?, key?_bare h hrest]
  simp only [Option.bind_eq_bind, Option.bind_some]
  split
  · next heq => exact absurd (by rw [heq]; rfl) hdot
  · rfl

end

/-! ### Lines -/

/-- A line of a document. -/
inductive Line where
  /-- A value under a key. -/
  | entry (key : String) (datum : Datum)
  /-- The header of a table. -/
  | header (name : String)

namespace Line

/-- The key that a line names. -/
def key : Line → String
  | .entry key _ => key
  | .header name => name

/-- What a line says. -/
def toStatement : Line → Statement
  | .entry key datum => .assign [key] datum.toToml
  | .header name => .table [name]

/-- A line without its end. -/
def body (spell : Char → List Char) : Line → List Char
  | .entry key datum => key.toList ++ ' ' :: '=' :: ' ' :: datum.toText spell
  | .header name => '[' :: (name.toList ++ [']'])

/-- A line as it is written. -/
def toText (spell : Char → List Char) (line : Line) : List Char := line.body spell ++ ['\n']

theorem statement?_entry (hspell : ∀ c, Spells c (spell c)) {key : String} (h : IsBare key) (datum : Datum)
    (rest : List Char) :
    statement? build (body spell (.entry key datum) ++ '\n' :: rest) =
      some (.assign [key] datum.toToml, '\n' :: rest) := by
  obtain ⟨c, tail, hkey, hc⟩ := h.exists_cons
  have hne : c ≠ '[' := ne_of_isKind hc (by decide)
  have hpath : keyPath? (key.toList ++ ' ' :: '=' :: ' ' :: (datum.toText spell ++ '\n' :: rest)) =
      some ([key], '=' :: ' ' :: (datum.toText spell ++ '\n' :: rest)) :=
    keyPath?_bare h (by simp [isBareKey]) (by simp [skipBlanks, isBlank])
  have hequals : skipBlanks ('=' :: ' ' :: (datum.toText spell ++ '\n' :: rest)) =
      '=' :: ' ' :: (datum.toText spell ++ '\n' :: rest) := Starts.skipBlanks ⟨'=', _, rfl, by decide⟩
  have hvalue : skipBlanks (' ' :: (datum.toText spell ++ '\n' :: rest)) = datum.toText spell ++ '\n' :: rest :=
    (datum.starts_toText.append ('\n' :: rest)).skipBlanks
  have hread : assignment? (some ∘ skipBlanks) (value? build maxOpen)
      (key.toList ++ ' ' :: '=' :: ' ' :: (datum.toText spell ++ '\n' :: rest)) =
        some (([key], datum.toToml), '\n' :: rest) := by
    rw [assignment?, hpath]
    simp only [Option.bind_eq_bind, Option.bind_some, Function.comp_apply, hequals, hvalue,
      datum.value?_toText hspell rest, maxOpen, Option.pure_def]
  rw [body, List.append_assoc, List.cons_append, List.cons_append, List.cons_append, statement?.eq_def]
  split
  · next heq => simp [hkey, hne] at heq
  · next heq => simp [hkey, hne] at heq
  · rw [hread]
    rfl

theorem statement?_header {name : String} (h : IsBare name) (rest : List Char) :
    statement? build (body spell (.header name) ++ '\n' :: rest) = some (.table [name], '\n' :: rest) := by
  obtain ⟨c, tail, hname, hc⟩ := h.exists_cons
  have hne : c ≠ '[' := ne_of_isKind hc (by decide)
  have hpath : keyPath? (skipBlanks (name.toList ++ ']' :: '\n' :: rest)) = some ([name], ']' :: '\n' :: rest) := by
    rw [(h.starts _).skipBlanks]
    exact keyPath?_bare h (by simp [isBareKey]) (by simp [skipBlanks, isBlank])
  rw [body, List.cons_append, List.append_assoc, List.singleton_append, statement?.eq_def]
  split
  · next heq => simp [hname, hne] at heq
  · next heq =>
    rw [← (List.cons.inj heq).2, hpath]
    rfl
  · next hheader => exact absurd rfl (hheader _)

variable {line : Line}

/-- **A line** is read as its statement, up to its end. -/
theorem statement?_body (hspell : ∀ c, Spells c (spell c)) (h : IsBare line.key) (rest : List Char) :
    statement? build (line.body spell ++ '\n' :: rest) = some (line.toStatement, '\n' :: rest) := by
  cases line with
  | entry key datum => exact statement?_entry hspell h datum rest
  | header name => exact statement?_header h rest

/-- A line starts with a character of its key or with a bracket. -/
theorem exists_cons (spell : Char → List Char) (h : IsBare line.key) :
    ∃ c tail, line.body spell = c :: tail ∧ (isBareKey c = true ∨ c = '[') := by
  cases line with
  | entry key datum =>
    have hbare : IsBare key := h
    obtain ⟨c, tail, hkey, hc⟩ := hbare.exists_cons
    exact ⟨c, _, by rw [body, hkey]; rfl, .inl hc⟩
  | header name => exact ⟨'[', _, rfl, .inr rfl⟩

theorem starts (spell : Char → List Char) (h : IsBare line.key) : Starts (line.body spell) := by
  obtain ⟨c, tail, hbody, hc⟩ := exists_cons spell h
  rw [hbody]
  rcases hc with hc | rfl
  · exact starts_cons hc tail
  · exact ⟨'[', tail, rfl, by decide⟩

theorem return_notMem_toText (hspell : ∀ c, Spells c (spell c)) (h : IsBare line.key) : '\r' ∉ line.toText spell := by
  have hkey : '\r' ∉ line.key.toList := fun hmem => absurd (h.2 _ hmem) (by decide)
  cases line with
  | entry key datum =>
    have hdatum := datum.return_notMem_toText hspell
    simpa [Line.key, toText, body, hdatum] using hkey
  | header name => simpa [Line.key, toText, body] using hkey

end Line

theorem lineEnd?_newline (rest : List Char) : lineEnd? ('\n' :: rest) = some rest := rfl

variable {lines : List Line}

/-- Lines are read as statements, if there is room for so many of them. -/
theorem statementsUpTo?_lines (hspell : ∀ c, Spells c (spell c)) (h : ∀ line ∈ lines, IsBare line.key) {most : ℕ}
    (hmost : lines.length < most) :
    statementsUpTo? build most (lines.flatMap (Line.toText spell)) = some (lines.map Line.toStatement) := by
  induction lines generalizing most with
  | nil =>
    obtain ⟨most, rfl⟩ := Nat.exists_eq_add_one.2 hmost
    rfl
  | cons line lines ih =>
    obtain ⟨most, rfl⟩ := Nat.exists_eq_add_one.2 (Nat.zero_lt_of_lt hmost)
    have hline := h line List.mem_cons_self
    have hread : statement? build (line.body spell ++ '\n' :: lines.flatMap (Line.toText spell)) =
        some (line.toStatement, '\n' :: lines.flatMap (Line.toText spell)) := line.statement?_body hspell hline _
    have hlines := ih (fun other hother => h other (List.mem_cons_of_mem line hother)) (Nat.lt_of_succ_lt_succ hmost)
    have hskip := ((Line.starts spell hline).append ('\n' :: lines.flatMap (Line.toText spell))).skipTrivia
    have htext : (line :: lines).flatMap (Line.toText spell) =
        line.body spell ++ '\n' :: lines.flatMap (Line.toText spell) := by
      simp [Line.toText]
    obtain ⟨c, tail, hbody, -⟩ := line.exists_cons spell hline
    rw [htext, statementsUpTo?, hskip]
    rw [hbody, List.cons_append] at hread ⊢
    simp [hread, lineEnd?_newline, hlines]

theorem length_le_length_lines (spell : Char → List Char) (lines : List Line) :
    lines.length ≤ (lines.flatMap (Line.toText spell)).length := by
  induction lines with
  | nil => exact Nat.zero_le _
  | cons line lines ih =>
    simp only [List.flatMap_cons, List.length_append, List.length_cons, Line.toText]
    omega

/-- **Lines** are read as statements. -/
theorem statements?_lines (hspell : ∀ c, Spells c (spell c)) (h : ∀ line ∈ lines, IsBare line.key) :
    statements? build (lines.flatMap (Line.toText spell)) = some (lines.map Line.toStatement) :=
  statementsUpTo?_lines hspell h (Nat.lt_succ_of_le (length_le_length_lines spell lines))

theorem hasWholeLineEnds_of_notMem {text : List Char} (h : '\r' ∉ text) : hasWholeLineEnds text = true := by
  induction text with
  | nil => rfl
  | cons c text ih =>
    obtain ⟨hc, htext⟩ := List.ne_and_not_mem_of_not_mem_cons h
    rw [hasWholeLineEnds.eq_def]
    split
    · rfl
    · next heq => exact absurd (List.cons.inj heq).1.symm hc
    · next heq =>
      obtain ⟨rfl, rfl⟩ := List.cons.inj heq
      simp [Ne.symm hc, ih htext]

theorem withoutByteOrderMark_lines (h : ∀ line ∈ lines, IsBare line.key) :
    withoutByteOrderMark (lines.flatMap (Line.toText spell)) = lines.flatMap (Line.toText spell) := by
  cases lines with
  | nil => rfl
  | cons line lines =>
    obtain ⟨c, tail, hbody, hc⟩ := line.exists_cons spell (h line List.mem_cons_self)
    have hne : c ≠ '\uFEFF' := by
      rcases hc with hc | rfl
      · exact ne_of_isKind hc (by decide)
      · decide
    rw [List.flatMap_cons, Line.toText, hbody, List.cons_append, List.cons_append, withoutByteOrderMark.eq_def]
    split
    · next heq => exact absurd (List.cons.inj heq).1 hne
    · rfl

/-! ### Tables -/

namespace Entries

variable {entries : Entries} {key : String}

theorem find?_eq_none (h : key ∉ entries.map Prod.fst) : entries.find? key = none := by
  rw [find?, List.lookup_eq_none_iff]
  rintro ⟨other, node⟩ hmem
  have hne : key ≠ other := fun heq => h (heq ▸ List.mem_map_of_mem hmem)
  simpa using hne

/-- The last entry is found, if no other has its key. -/
theorem find?_append_singleton (h : key ∉ entries.map Prod.fst) (node : Node) :
    Entries.find? (entries ++ [(key, node)]) key = some node := by
  have hnone := find?_eq_none h
  rw [find?] at hnone
  rw [find?, List.lookup_append, hnone, Option.none_or, List.lookup_cons_self]

theorem set_of_notMem (h : key ∉ entries.map Prod.fst) (node : Node) : entries.set key node = entries ++ [(key, node)] := by
  rw [set, find?_eq_none h]
  rfl

theorem set_append_singleton (h : key ∉ entries.map Prod.fst) (old node : Node) :
    Entries.set (entries ++ [(key, old)]) key node = entries ++ [(key, node)] := by
  have hothers : (entries.map fun entry => if entry.1 = key then (entry.1, node) else entry) = entries := by
    refine (List.map_congr_left fun entry hentry => if_neg ?_).trans (List.map_id entries)
    rintro rfl
    exact h (List.mem_map_of_mem hentry)
  rw [set, find?_append_singleton h, Option.isSome_some, if_pos rfl, List.map_append]
  exact congrArg₂ _ hothers (by simp)

/-- A value under a key that is not there yet comes behind the others. -/
theorem assign_of_notMem (h : key ∉ entries.map Prod.fst) (value : Toml) :
    assign value true [key] entries = some (entries ++ [(key, .value value)]) := by
  rw [assign, if_pos rfl, add, find?_eq_none h, set_of_notMem h]
  rfl

theorem openTable_of_notMem (h : key ∉ entries.map Prod.fst) :
    openTable key entries = some (entries ++ [(key, .table .header [])]) := by
  rw [openTable, find?_eq_none h, set_of_notMem h]

/-- What happens under the last header happens in the last table. -/
theorem atHeader_append_singleton (h : key ∉ entries.map Prod.fst) (change : Entries → Option Entries) (inner : Entries) :
    atHeader change [key] (entries ++ [(key, .table .header inner)]) =
      (change inner).map fun inner => entries ++ [(key, .table .header inner)] := by
  rw [atHeader, find?_append_singleton h]
  simp only [atHeader, set_append_singleton h]

end Entries

/-- The entries of a table, while the document is put together. -/
def nodes (entries : List (String × Datum)) : Entries := entries.map fun (key, datum) => (key, .value datum.toToml)

/-- The entries of a table as values. -/
def values (entries : List (String × Datum)) : List (String × Toml) := entries.map fun (key, datum) => (key, datum.toToml)

theorem map_fst_nodes (entries : List (String × Datum)) : (nodes entries).map Prod.fst = entries.map Prod.fst := by
  rw [nodes, List.map_map]
  rfl

theorem map_fst_values (entries : List (String × Datum)) : (values entries).map Prod.fst = entries.map Prod.fst := by
  rw [values, List.map_map]
  rfl

theorem tableOfEntries_append (first second : Entries) :
    tableOfEntries (first ++ second) = tableOfEntries first ++ tableOfEntries second := by
  induction first with
  | nil => rfl
  | cons entry first ih => rw [List.cons_append, tableOfEntries, tableOfEntries, ih, List.cons_append]

theorem tableOfEntries_nodes (entries : List (String × Datum)) : tableOfEntries (nodes entries) = values entries := by
  induction entries with
  | nil => rfl
  | cons entry entries ih => exact congrArg (_ :: ·) ih

/-- Tables with their names. -/
abbrev Tables := List (String × List (String × Datum))

/-- The lines of entries. -/
def entryLines (entries : List (String × Datum)) : List Line := entries.map fun (key, datum) => .entry key datum

/-- The lines of tables, each behind its header. -/
def tableLines (tables : Tables) : List Line := tables.flatMap fun (name, entries) => .header name :: entryLines entries

/-- Tables, while the document is put together. -/
def tableNodes (tables : Tables) : Entries := tables.map fun (name, entries) => (name, .table .header (nodes entries))

/-- Tables as values. -/
def tableValues (tables : Tables) : List (String × Toml) := tables.map fun (name, entries) => (name, .table (values entries))

theorem tableOfEntries_tableNodes (tables : Tables) : tableOfEntries (tableNodes tables) = tableValues tables := by
  induction tables with
  | nil => rfl
  | cons table tables ih =>
    obtain ⟨name, entries⟩ := table
    rw [tableNodes, tableValues, List.map_cons, List.map_cons, tableOfEntries, Node.toToml, tableOfEntries_nodes]
    exact congrArg (_ :: ·) ih

/-- The document as a draft, statement by statement. -/
def extendAll (draft : Draft) (lines : List Line) : Option Draft := (lines.map Line.toStatement).foldlM Draft.extend draft

theorem extendAll_cons (draft : Draft) (line : Line) (lines : List Line) :
    extendAll draft (line :: lines) = (draft.extend line.toStatement).bind fun draft => extendAll draft lines := rfl

theorem extendAll_append (draft : Draft) (first second : List Line) :
    extendAll draft (first ++ second) = (extendAll draft first).bind fun draft => extendAll draft second := by
  rw [extendAll, List.map_append, List.foldlM_append]
  rfl

/-- **Entries** come behind those that are in the current table already. The table stands at `place` in the draft. -/
theorem extendAll_entryLines (place : Entries → Entries) {current : List String}
    (hplace : ∀ change inner, Entries.atHeader change current (place inner) = (change inner).map place)
    {entries : List (String × Datum)} {inner : Entries}
    (hnodup : (inner.map Prod.fst ++ entries.map Prod.fst).Nodup) :
    extendAll ⟨place inner, current⟩ (entryLines entries) = some ⟨place (inner ++ nodes entries), current⟩ := by
  induction entries generalizing inner with
  | nil => simp [extendAll, entryLines, nodes]
  | cons entry entries ih =>
    obtain ⟨key, datum⟩ := entry
    have hkey : key ∉ inner.map Prod.fst := fun hmem =>
      List.disjoint_of_nodup_append hnodup hmem (List.mem_map_of_mem List.mem_cons_self)
    have hstep : Draft.extend ⟨place inner, current⟩ (Line.toStatement (.entry key datum)) =
        some ⟨place (inner ++ [(key, .value datum.toToml)]), current⟩ := by
      rw [Line.toStatement, Draft.extend, hplace, Entries.assign_of_notMem hkey]
      rfl
    have hothers : ((inner ++ [(key, Node.value datum.toToml)]).map Prod.fst ++ entries.map Prod.fst).Nodup := by
      simpa using hnodup
    have hlines : entryLines ((key, datum) :: entries) = .entry key datum :: entryLines entries := rfl
    rw [hlines, extendAll_cons, hstep, Option.bind_some, ih hothers, List.append_assoc]
    rfl

/-- **Tables** come behind what the draft holds. -/
theorem extendAll_tableLines {made : Entries} (current : List String) {tables : Tables}
    (hnodup : (made.map Prod.fst ++ tables.map Prod.fst).Nodup)
    (hinner : ∀ table ∈ tables, (table.2.map Prod.fst).Nodup) :
    ∃ last, extendAll ⟨made, current⟩ (tableLines tables) = some ⟨made ++ tableNodes tables, last⟩ := by
  induction tables generalizing made current with
  | nil => exact ⟨current, by simp [extendAll, tableLines, tableNodes]⟩
  | cons table tables ih =>
    obtain ⟨name, entries⟩ := table
    have hname : name ∉ made.map Prod.fst := fun hmem =>
      List.disjoint_of_nodup_append hnodup hmem (List.mem_map_of_mem List.mem_cons_self)
    have hopen : Draft.extend ⟨made, current⟩ (Line.toStatement (.header name)) =
        some ⟨made ++ [(name, .table .header [])], [name]⟩ := by
      simp [Line.toStatement, Draft.extend, Entries.atHeader, Entries.openTable_of_notMem hname]
    have hempty : (([] : Entries).map Prod.fst ++ entries.map Prod.fst).Nodup := by
      simpa using hinner (name, entries) List.mem_cons_self
    have hentries := extendAll_entryLines (fun inner => made ++ [(name, .table .header inner)])
      (fun change inner => Entries.atHeader_append_singleton hname change inner) hempty
    have hothers : ((made ++ [(name, Node.table .header (nodes entries))]).map Prod.fst ++ tables.map Prod.fst).Nodup := by
      simpa using hnodup
    obtain ⟨last, hrest⟩ := ih [name] hothers fun other hother => hinner other (List.mem_cons_of_mem _ hother)
    have hlines : tableLines ((name, entries) :: tables) = .header name :: (entryLines entries ++ tableLines tables) := by
      simp [tableLines]
    refine ⟨last, ?_⟩
    rw [hlines, extendAll_cons, hopen, Option.bind_some, extendAll_append, hentries, Option.bind_some, List.nil_append,
      hrest, List.append_assoc]
    rfl

/-! ### Documents -/

/-- The lines of a document: entries, and tables behind them. -/
def documentLines (top : List (String × Datum)) (tables : Tables) : List Line := entryLines top ++ tableLines tables

/-- A document as it is written. -/
def document (spell : Char → List Char) (top : List (String × Datum)) (tables : Tables) : List Char :=
  (documentLines top tables).flatMap (Line.toText spell)

variable {top : List (String × Datum)} {tables : Tables}

theorem isBare_of_mem_entryLines {entries : List (String × Datum)} (h : ∀ key ∈ entries.map Prod.fst, IsBare key)
    {line : Line} (hline : line ∈ entryLines entries) : IsBare line.key := by
  obtain ⟨entry, hentry, rfl⟩ := List.mem_map.1 hline
  exact h _ (List.mem_map_of_mem hentry)

/-- Each line of a document names one of its keys. -/
theorem isBare_of_mem_documentLines (hkeys : AreKeys (top.map Prod.fst ++ tables.map Prod.fst))
    (hinner : ∀ table ∈ tables, AreKeys (table.2.map Prod.fst)) :
    ∀ line ∈ documentLines top tables, IsBare line.key := by
  intro line hline
  rcases List.mem_append.1 hline with hline | hline
  · exact isBare_of_mem_entryLines (fun key hkey => hkeys.bare key (List.mem_append_left _ hkey)) hline
  obtain ⟨table, htable, hline⟩ := List.mem_flatMap.1 hline
  rcases List.mem_cons.1 hline with rfl | hline
  · exact hkeys.bare _ (List.mem_append_right _ (List.mem_map_of_mem htable))
  · exact isBare_of_mem_entryLines (hinner table htable).bare hline

/-- The statements of a document make up its draft. -/
theorem exists_extendAll_documentLines (hnodup : (top.map Prod.fst ++ tables.map Prod.fst).Nodup)
    (hinner : ∀ table ∈ tables, (table.2.map Prod.fst).Nodup) :
    ∃ last, extendAll {} (documentLines top tables) = some ⟨nodes top ++ tableNodes tables, last⟩ := by
  have hplace : ∀ change inner, Entries.atHeader change [] (id inner) = (change inner).map id := by
    simp [Entries.atHeader]
  have hempty : (([] : Entries).map Prod.fst ++ top.map Prod.fst).Nodup := by
    simpa using hnodup.of_append_left
  have htop : extendAll {} (entryLines top) = some ⟨nodes top, []⟩ := extendAll_entryLines id hplace hempty
  have hmade : ((nodes top).map Prod.fst ++ tables.map Prod.fst).Nodup := by rwa [map_fst_nodes]
  obtain ⟨last, htables⟩ := extendAll_tableLines [] hmade hinner
  refine ⟨last, ?_⟩
  rw [documentLines, extendAll_append, htop, Option.bind_some, htables]

/-- **A written document is read back.** -/
theorem parse?_document (hspell : ∀ c, Spells c (spell c)) (hkeys : AreKeys (top.map Prod.fst ++ tables.map Prod.fst))
    (hinner : ∀ table ∈ tables, AreKeys (table.2.map Prod.fst)) :
    parse? (String.ofList (document spell top tables)) = some (values top ++ tableValues tables) := by
  have hbare := isBare_of_mem_documentLines hkeys hinner
  have hends : hasWholeLineEnds (document spell top tables) = true := by
    refine hasWholeLineEnds_of_notMem fun hmem => ?_
    obtain ⟨line, hline, hreturn⟩ := List.mem_flatMap.1 hmem
    exact line.return_notMem_toText hspell (hbare line hline) hreturn
  obtain ⟨last, hdraft⟩ := exists_extendAll_documentLines hkeys.nodup fun table htable => (hinner table htable).nodup
  rw [extendAll] at hdraft
  have hguard : (guard (true = true) : Option Unit) = some () := rfl
  rw [parse?, String.toList_ofList, hends, hguard, document, withoutByteOrderMark_lines hbare,
    statements?_lines hspell hbare]
  simp only [Option.bind_eq_bind, Option.pure_def, Option.bind_some, hdraft, tableOfEntries_append,
    tableOfEntries_nodes, tableOfEntries_tableNodes]

end PageGraph.Toml
