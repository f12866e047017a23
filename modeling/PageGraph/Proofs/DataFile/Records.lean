import PageGraph.Page.Json
import PageGraph.Record.Json
import PageGraph.Proofs.Json.Fields
import PageGraph.Proofs.Timestamp

/-!
# Data files of records and pages

A record or a page is read back from its JSON form if its numbers have at most 64 bits, and what is read from a data
file has no larger ones. Nothing else stands in the way: what was left out is what is taken to be there, and both nest
no deeper than a list of texts in an object.

* `Record.Fits`, `Page.Fits` : the numbers have at most 64 bits;
* `Record.ofFileText?_fileText`, `Page.ofFileText?_fileText` : such records and pages are read back.
-/

namespace PageGraph

open Json

/-! ### Optional fields -/

namespace Json

theorem optional_some {α : Type} {decode : Json → Option α} {value : Json} (h : value ≠ .null) :
    optional decode (some value) = (decode value).map some := by
  rw [optional.eq_def]
  split
  · next heq => cases heq
  · next heq => exact absurd (Option.some.inj heq) h
  · next heq =>
    obtain rfl := Option.some.inj heq
    rfl

/-- An optional field is read back from what it was given. The value of a field that is given is never null. -/
theorem optional_map {α : Type} {encode : α → Json} {decode : Json → Option α} (value : Option α)
    (h : ∀ given ∈ value, encode given ≠ .null ∧ decode (encode given) = some given) :
    optional decode (value.map encode) = some value := by
  cases value with
  | none => rfl
  | some given =>
    obtain ⟨hnull, hdecode⟩ := h given rfl
    rw [Option.map_some, optional_some hnull, hdecode, Option.map_some]

/-- What an optional field was given is found in it, if it is not null. -/
theorem exists_of_optional_eq_some {α : Type} {decode : Json → Option α} {given : Option Json} {value : α}
    (h : optional decode given = some (some value)) : ∃ json, given = some json ∧ decode json = some value := by
  unfold optional at h
  split at h
  · cases h
  · cases h
  · next json _ =>
    obtain ⟨found, hfound, heq⟩ := Option.map_eq_some_iff.1 h
    exact ⟨json, rfl, heq ▸ hfound⟩

theorem lt_of_required_eq_some {given : Option Json} {n : ℕ} (h : required nat? given = some n) :
    n < UInt64.size := by
  obtain ⟨value, -, hvalue⟩ := Option.bind_eq_some_iff.1 h
  exact lt_of_nat?_eq_some hvalue

theorem lt_of_defaulted_eq_some {given : Option Json} {n : ℕ} (h : defaulted 0 nat? given = some n) :
    n < UInt64.size := by
  cases given with
  | none =>
    obtain rfl := Option.some.inj h
    decide
  | some value => exact lt_of_nat?_eq_some h

end Json

/-! ### Records -/

theorem Timestamp.ofJson?_toJson (time : Timestamp) : ofJson? time.toJson = some time := by
  rw [ofJson?, toJson, text?, unescape?_escape, Option.map_some, Option.bind_some, String.toList_ofList,
    ofText?_toText]

namespace Record

/-- The size of a record has at most 64 bits. -/
def Fits (record : Record) : Prop := record.size < UInt64.size

/-- What the fields of a record are given. -/
def fields (record : Record) : List (String × Option Json) :=
  [("path", some (.ofString record.path)), ("root", some (.ofString record.root)),
    ("name", some (.ofString record.name)), ("size", some (.ofNat record.size)),
    ("modified", record.modified.map Timestamp.toJson), ("created", record.created.map Timestamp.toJson)]

theorem written_toJson (record : Record) : Written record.toJson := by
  have htime : ∀ time : Timestamp, Written time.toJson := fun time => .string _
  refine written_ofFields ?_
  simp [written_ofString, written_ofNat, htime]

theorem ofJson?_toJson {record : Record} (h : record.Fits) (room : ℕ) :
    ofJson? (room + 1) record.toJson = some record := by
  have htime : ∀ time : Option Timestamp,
      optional Timestamp.ofJson? (time.map Timestamp.toJson) = some time := fun time =>
    optional_map time fun found _ => ⟨by simp [Timestamp.toJson], found.ofJson?_toJson⟩
  have hfields : record.toJson.fields? fieldNames = some (record.fields.map Prod.snd) :=
    fields?_ofFields (by simp)
  rw [ofJson?, hfields]
  simp [enter, fields, required, defaulted, htime, nat?_ofNat h]

/-- The size of a record that was read has at most 64 bits. -/
theorem fits_of_ofJson?_eq_some {room : ℕ} {value : Json} {record : Record}
    (h : ofJson? room value = some record) : record.Fits := by
  unfold ofJson? at h
  simp only [Option.bind_eq_bind, Option.bind_eq_some_iff] at h
  obtain ⟨_, -, given, -, h⟩ := h
  split at h
  · simp only [Option.bind_eq_some_iff] at h
    obtain ⟨path, -, root, -, name, -, size, hsize, modified, -, created, -, h⟩ := h
    obtain rfl := Option.some.inj h
    exact lt_of_defaulted_eq_some hsize
  · cases h

/-- **Records are read back** from the data file that is written of them. -/
theorem ofFileText?_fileText {records : List Record} (h : ∀ record ∈ records, record.Fits) :
    ofFileText? (fileText records) = some records :=
  ofFileText?_fileText_eq_some (fun record _ => record.written_toJson)
    fun record hrecord => ofJson?_toJson (h record hrecord) 125

theorem fits_of_ofFileText?_eq_some {text : String} {records : List Record}
    (h : ofFileText? text = some records) : ∀ record ∈ records, record.Fits := by
  intro record hrecord
  obtain ⟨room, value, hvalue⟩ := exists_of_ofFileText?_eq_some h hrecord
  exact fits_of_ofJson?_eq_some hvalue

end Record

/-! ### Pages -/

namespace Page

/-- The depth of a page has at most 64 bits. -/
def Fits (page : Page) : Prop := page.depth < UInt64.size

/-- What the fields of a page are given. -/
def fields (page : Page) : List (String × Option Json) :=
  [("name", some (.ofString page.name)), ("path", some (.ofString page.path)),
    ("parent", page.parent.map .ofString), ("depth", some (.ofNat page.depth)),
    ("nested", some (.ofStrings page.references))]

theorem written_toJson (page : Page) : Written page.toJson := by
  refine written_ofFields ?_
  simp [written_ofString, written_ofNat, written_ofStrings]

theorem ofJson?_toJson {page : Page} (h : page.Fits) (room : ℕ) :
    ofJson? (room + 2) page.toJson = some page := by
  have hparent : optional text? (page.parent.map .ofString) = some page.parent :=
    optional_map page.parent fun parent _ => ⟨by simp [ofString], text?_ofString parent⟩
  have hfields : page.toJson.fields? fieldNames = some (page.fields.map Prod.snd) :=
    fields?_ofFields (by simp)
  rw [ofJson?, hfields]
  simp [enter, fields, required, defaulted, hparent, nat?_ofNat h, texts?_ofStrings]

/-- The depth of a page that was read has at most 64 bits. -/
theorem fits_of_ofJson?_eq_some {room : ℕ} {value : Json} {page : Page}
    (h : ofJson? room value = some page) : page.Fits := by
  unfold ofJson? at h
  simp only [Option.bind_eq_bind, Option.bind_eq_some_iff] at h
  obtain ⟨_, -, given, -, h⟩ := h
  split at h
  · simp only [Option.bind_eq_some_iff] at h
    obtain ⟨name, -, path, -, parent, -, depth, hdepth, nested, -, h⟩ := h
    obtain rfl := Option.some.inj h
    exact lt_of_defaulted_eq_some hdepth
  · cases h

/-- **Pages are read back** from the data file that is written of them. -/
theorem ofFileText?_fileText {pages : List Page} (h : ∀ page ∈ pages, page.Fits) :
    ofFileText? (fileText pages) = some pages :=
  ofFileText?_fileText_eq_some (fun page _ => page.written_toJson)
    fun page hpage => ofJson?_toJson (h page hpage) 124

theorem fits_of_ofFileText?_eq_some {text : String} {pages : List Page}
    (h : ofFileText? text = some pages) : ∀ page ∈ pages, page.Fits := by
  intro page hpage
  obtain ⟨room, value, hvalue⟩ := exists_of_ofFileText?_eq_some h hpage
  exact fits_of_ofJson?_eq_some hvalue

end Page

end PageGraph
