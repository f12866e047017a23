import PageGraph.Json.Fields
import PageGraph.Proofs.Json.Printing
import PageGraph.Proofs.Lists
import Mathlib.Data.List.Nodup

/-!
# Written records are taken apart again

A record that is written as an object gives its fields back, whichever of them were left out, and each usual value
is read back from its JSON form: a text always, a number if it has at most 64 bits. What is decoded may nest only
so deep, and `Json.nesting` says how deep a value does.

* `Json.fields?_ofFields` : the fields of a written record are found by their names;
* `Json.ofFileText?_fileText` : reading a written data file is decoding its records one by one.
-/

namespace PageGraph

namespace Json

open Text

/-! ### Nesting -/

mutual

/-- How many arrays and objects are open at once in a value. -/
def nesting : Json → ℕ
  | .array items => itemNesting items + 1
  | .object members => memberNesting members + 1
  | _ => 0

/-- How many are open at once in one of several values. -/
def itemNesting : List Json → ℕ
  | [] => 0
  | item :: items => max item.nesting (itemNesting items)

/-- How many are open at once in the value of one of several members. -/
def memberNesting : List (List Char × Json) → ℕ
  | [] => 0
  | (_, value) :: members => max value.nesting (memberNesting members)

end

theorem nesting_le_itemNesting {item : Json} {items : List Json} (h : item ∈ items) :
    item.nesting ≤ itemNesting items := by
  induction items with
  | nil => cases h
  | cons first items ih =>
    rw [itemNesting]
    rcases List.mem_cons.1 h with rfl | h
    · exact Nat.le_max_left _ _
    · exact Nat.le_trans (ih h) (Nat.le_max_right _ _)

theorem itemNesting_le {items : List Json} {n : ℕ} (h : ∀ item ∈ items, item.nesting ≤ n) :
    itemNesting items ≤ n := by
  induction items with
  | nil => exact Nat.zero_le n
  | cons item items ih =>
    rw [itemNesting]
    exact Nat.max_le.2 ⟨h item List.mem_cons_self, ih fun other hother => h other (List.mem_cons_of_mem _ hother)⟩

@[simp] theorem nesting_ofString (text : String) : (ofString text).nesting = 0 := by
  simp [ofString, nesting]

@[simp] theorem nesting_ofNat (n : ℕ) : (ofNat n).nesting = 0 := by
  simp [ofNat, nesting]

@[simp] theorem nesting_ofStrings (texts : List String) : (ofStrings texts).nesting = 1 := by
  have hflat : itemNesting (texts.map ofString) ≤ 0 := itemNesting_le fun item hitem => by
    obtain ⟨text, -, rfl⟩ := List.mem_map.1 hitem
    exact Nat.le_of_eq (nesting_ofString text)
  rw [ofStrings, nesting]
  omega

/-! ### Usual values -/

@[simp] theorem text?_ofString (text : String) : text? (ofString text) = some text := by
  rw [ofString, text?, unescape?_escape, Option.map_some, String.ofList_toList]

theorem nat?_ofNat {n : ℕ} (h : n < UInt64.size) : nat? (ofNat n) = some n := by
  have hdigits : (Decimal.digits n).all Char.isDigit = true :=
    List.all_eq_true.2 fun c hc => Decimal.isDigit_of_mem_digits hc
  rw [ofNat, nat?, Decimal.value_digits, hdigits, decide_eq_true h]
  rfl

theorem lt_of_nat?_eq_some {value : Json} {n : ℕ} (h : nat? value = some n) : n < UInt64.size := by
  unfold nat? at h
  split at h
  · split at h
    · next hfits =>
      obtain rfl := Option.some.inj h
      exact of_decide_eq_true (Bool.and_eq_true_iff.1 hfits).2
    · cases h
  · cases h

theorem texts?_ofStrings {room : ℕ} (h : 0 < room) (texts : List String) :
    texts? room (ofStrings texts) = some texts := by
  obtain ⟨room, rfl⟩ := Nat.exists_eq_succ_of_ne_zero (Nat.ne_of_gt h)
  rw [texts?, enter, Option.bind_some, ofStrings, items?, Option.bind_some]
  exact mapM_map_eq_some fun text _ => text?_ofString text

theorem pos_of_texts?_eq_some {room : ℕ} {value : Json} {texts : List String}
    (h : texts? room value = some texts) : 0 < room := by
  cases room with
  | zero => cases h
  | succ room => exact Nat.succ_pos room

theorem written_ofString (text : String) : Written (ofString text) := .string text.toList

theorem written_ofNat (n : ℕ) : Written (ofNat n) := .number n

theorem written_ofStrings (texts : List String) : Written (ofStrings texts) := by
  refine .array fun item hitem => ?_
  obtain ⟨text, -, rfl⟩ := List.mem_map.1 hitem
  exact written_ofString text

/-! ### Fields -/

/-- The fields that have a value, with their names as lists of characters. -/
def given (fields : List (String × Option Json)) : List (List Char × Json) :=
  fields.filterMap fun (name, value) => value.map fun value => (name.toList, value)

theorem mapM_readKey?_escape (fields : List (String × Option Json)) :
    (fields.filterMap fun (name, value) => value.map fun value => (escape name.toList, value)).mapM readKey? =
      some (given fields) := by
  induction fields with
  | nil => rfl
  | cons field fields ih =>
    obtain ⟨name, value⟩ := field
    rw [given] at ih ⊢
    cases value with
    | none =>
      rw [List.filterMap_cons_none (by rfl), List.filterMap_cons_none (by rfl)]
      exact ih
    | some value =>
      rw [List.filterMap_cons_some (by rfl), List.filterMap_cons_some (by rfl), List.mapM_cons, ih, readKey?,
        unescape?_escape]
      rfl

theorem fst_ne_of_mem_given {fields : List (String × Option Json)} {name : String}
    (h : name ∉ fields.map Prod.fst) {member : List Char × Json} (hmember : member ∈ given fields) :
    member.1 ≠ name.toList := by
  obtain ⟨⟨other, value⟩, hfield, heq⟩ := List.mem_filterMap.1 hmember
  obtain ⟨value, rfl, rfl⟩ := Option.map_eq_some_iff.1 heq
  intro hname
  exact h (List.mem_map.2 ⟨_, hfield, String.toList_inj.1 hname⟩)

/-- A field is found with what it was given, and with nothing if it was left out. -/
theorem member?_given {fields : List (String × Option Json)} (h : (fields.map Prod.fst).Nodup)
    {field : String × Option Json} (hfield : field ∈ fields) :
    member? (given fields) field.1 = some field.2 := by
  -- the members with the name of the field are the one that it gives, if any
  have hfilter : (given fields).filter (fun member => member.1 == field.1.toList) =
      (field.2.map fun value => (field.1.toList, value)).toList := by
    induction fields with
    | nil => cases hfield
    | cons first fields ih =>
      rw [List.map_cons, List.nodup_cons] at h
      have hcons : given (first :: fields) =
          (first.2.map fun value => (first.1.toList, value)).toList ++ given fields := by
        obtain ⟨name, value⟩ := first
        cases value <;> rfl
      rw [hcons, List.filter_append]
      rcases List.mem_cons.1 hfield with rfl | hfield
      · have hothers : (given fields).filter (fun member => member.1 == field.1.toList) = [] :=
          List.filter_eq_nil_iff.2 fun member hmember => by simpa using fst_ne_of_mem_given h.1 hmember
        rw [hothers, List.append_nil]
        cases field.2 <;> simp
      · have hne : first.1 ≠ field.1 := fun heq => h.1 (heq ▸ List.mem_map_of_mem hfield)
        rw [ih h.2 hfield]
        cases first.2 <;> simp [String.toList_inj, hne]
  rw [member?, hfilter]
  cases field.2 <;> rfl

/-- **The fields of a written record** are what the record was given, in the order of the names. -/
theorem fields?_ofFields {fields : List (String × Option Json)} (h : (fields.map Prod.fst).Nodup) :
    (ofFields fields).fields? (fields.map Prod.fst) = some (fields.map Prod.snd) := by
  rw [ofFields, fields?, mapM_readKey?_escape, Option.bind_some, List.mapM_map]
  exact mapM_of_forall_eq_some fun field hfield => member?_given h hfield

theorem written_ofFields {fields : List (String × Option Json)}
    (h : ∀ field ∈ fields, ∀ value ∈ field.2, Written value) : Written (ofFields fields) := by
  refine .object (fun member hmember => ?_) fun member hmember => ?_
  all_goals
    obtain ⟨⟨name, value⟩, hfield, heq⟩ := List.mem_filterMap.1 hmember
    obtain ⟨value, rfl, rfl⟩ := Option.map_eq_some_iff.1 heq
  · exact ⟨_, rfl⟩
  · exact h _ hfield _ rfl

/-! ### Data files -/

/-- **A written data file is read** by decoding its records one by one. -/
theorem ofFileText?_fileText {α : Type} {encode : α → Json} (decode : ℕ → Json → Option α) {records : List α}
    (h : ∀ record ∈ records, Written (encode record)) :
    ofFileText? decode (fileText encode records) =
      records.mapM fun record => decode (maxOpen - 1) (encode record) := by
  have hwritten : Written (.array (records.map encode)) := .array fun value hvalue => by
    obtain ⟨record, hrecord, rfl⟩ := List.mem_map.1 hvalue
    exact h record hrecord
  have henter : enter maxOpen = some (maxOpen - 1) := rfl
  rw [ofFileText?, fileText, parse?_pretty hwritten, henter]
  simp only [Option.bind_eq_bind, Option.bind_some, items?]
  rw [List.mapM_map]
  rfl

/-- A written data file is read back if each of its records is. -/
theorem ofFileText?_fileText_eq_some {α : Type} {encode : α → Json} {decode : ℕ → Json → Option α}
    {records : List α} (hwritten : ∀ record ∈ records, Written (encode record))
    (h : ∀ record ∈ records, decode (maxOpen - 1) (encode record) = some record) :
    ofFileText? decode (fileText encode records) = some records := by
  rw [ofFileText?_fileText decode hwritten, mapM_of_forall_eq_some h, List.map_id']

/-- Each record of a data file is decoded from a value. -/
theorem exists_of_ofFileText?_eq_some {α : Type} {decode : ℕ → Json → Option α} {text : String}
    {records : List α} (h : ofFileText? decode text = some records) {record : α} (hrecord : record ∈ records) :
    ∃ room value, decode room value = some record := by
  simp only [ofFileText?, Option.bind_eq_bind, Option.bind_eq_some_iff] at h
  obtain ⟨_, -, items, -, room, -, hitems⟩ := h
  obtain ⟨value, -, hvalue⟩ := exists_item_of_mapM_eq_some hitems hrecord
  exact ⟨room, value, hvalue⟩

end Json

end PageGraph
