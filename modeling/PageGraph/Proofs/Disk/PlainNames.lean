import Mathlib.Data.List.Basic
import PageGraph.FileSystem.Resolution
import PageGraph.Proofs.PagePath.NormalForm
import PageGraph.Proofs.Text.Utf8

/-!
# Places with plain names

A name of a file system can be any octets but the slash and NUL, and a page path is a text in normal form. The
page path of a place spells the place out, name by name, exactly if nothing is lost on the way: the names are UTF-8, and no
backslash in them is taken for a separator.

* `Name.IsProper` : what a file system admits as a name;
* `Name.IsPlain` : a name that a page path can hold;
* `Place.encode_pageKey` : the page path of a place with such names spells it out;
* `Place.ofOctets_octets` : taking the path of a place apart gives its names.
-/

namespace PageGraph

open Text PagePath

/-! ### Names -/

/-- What a file system admits as a name. -/
structure Name.IsProper (name : Name) : Prop where
  nonempty : name ≠ []
  notHere : name ≠ Route.here
  notUp : name ≠ Route.up
  noSlash : Place.slash ∉ name
  noNul : (0 : UInt8) ∉ name
  short : name.length ≤ Route.maxNameLength

instance (name : Name) : Decidable name.IsProper :=
  decidable_of_iff (name ≠ [] ∧ name ≠ Route.here ∧ name ≠ Route.up ∧ Place.slash ∉ name ∧ (0 : UInt8) ∉ name ∧
      name.length ≤ Route.maxNameLength)
    ⟨fun ⟨hempty, hhere, hup, hslash, hnul, hshort⟩ => ⟨hempty, hhere, hup, hslash, hnul, hshort⟩,
      fun ⟨hempty, hhere, hup, hslash, hnul, hshort⟩ => ⟨hempty, hhere, hup, hslash, hnul, hshort⟩⟩

/-- A name that a page path can hold: it is the UTF-8 of a text without a backslash. -/
def Name.IsPlain (name : Name) : Prop := ∃ text, name = Utf8.encode text ∧ '\\' ∉ text

/-- The name that a text is encoded as. -/
def Name.ofText (text : String) : Name := Utf8.encode text.toList

/-- A place that a page path can spell out. -/
def Place.IsPlain (place : Place) : Prop := ∀ name ∈ place, Name.IsPlain name

namespace Name

variable {name : Name}

theorem encode_decodeLossy (h : name.IsPlain) : Utf8.encode (Utf8.decodeLossy name) = name := by
  obtain ⟨text, rfl, -⟩ := h
  rw [Utf8.decodeLossy_encode]

/-- A name is plain if it is what its text is encoded as. -/
theorem isPlain_iff : name.IsPlain ↔ Utf8.encode (Utf8.decodeLossy name) = name ∧ '\\' ∉ Utf8.decodeLossy name := by
  constructor
  · intro h
    refine ⟨encode_decodeLossy h, ?_⟩
    obtain ⟨text, rfl, hbackslash⟩ := h
    rwa [Utf8.decodeLossy_encode]
  · rintro ⟨hname, hbackslash⟩
    exact ⟨_, hname.symm, hbackslash⟩

instance (name : Name) : Decidable name.IsPlain := decidable_of_iff _ isPlain_iff.symm

theorem mem_encode_of_mem {c : Char} {text : List Char} (hc : c ∈ text) {octet : UInt8}
    (hoctet : octet ∈ Utf8.encodeChar c) : octet ∈ Utf8.encode text :=
  List.mem_flatMap.2 ⟨c, hc, hoctet⟩

/-- The text of a proper and plain name is a segment that names something. -/
theorem isName_decodeLossy (hproper : name.IsProper) (hplain : name.IsPlain) : IsName (Utf8.decodeLossy name) where
  nonempty h := hproper.nonempty (by rw [← encode_decodeLossy hplain, h]; rfl)
  notHere h := hproper.notHere (by rw [← encode_decodeLossy hplain, h]; rfl)
  notUp h := hproper.notUp (by rw [← encode_decodeLossy hplain, h]; rfl)
  noSeparator c hc := by
    obtain ⟨text, rfl, hbackslash⟩ := hplain
    rw [Utf8.decodeLossy_encode] at hc
    have hslash : c ≠ '/' := by
      rintro rfl
      exact hproper.noSlash (mem_encode_of_mem hc (by decide))
    have hother : c ≠ '\\' := by
      rintro rfl
      exact hbackslash hc
    simp [isSeparator, hslash, hother]

end Name

/-! ### Places -/

namespace Place

variable {place : Place}

theorem octets_of_ne_nil (h : place ≠ []) : place.octets = place.flatMap (slash :: ·) := by
  cases place with
  | nil => exact absurd rfl h
  | cons name rest => rfl

theorem octets_ne_nil (place : Place) : place.octets ≠ [] := by
  cases place with
  | nil => exact List.cons_ne_nil _ _
  | cons name rest =>
    rw [octets_of_ne_nil (by simp), List.flatMap_cons]
    simp

theorem zero_not_mem_octets (h : ∀ name ∈ place, name.IsProper) : (0 : UInt8) ∉ place.octets := by
  cases place with
  | nil => decide
  | cons name rest =>
    rw [octets_of_ne_nil (by simp), List.mem_flatMap]
    rintro ⟨other, hother, hmem⟩
    rcases List.mem_cons.1 hmem with hslash | hmem
    · exact absurd hslash (by decide)
    · exact (h other hother).noNul hmem

/-- Taking the path of a place apart gives its names. -/
theorem ofOctets_octets (h : ∀ name ∈ place, name.IsProper) (hplace : place ≠ []) :
    Route.ofOctets place.octets = { absolute := true, names := place, trailingSlash := false } := by
  have hsplit : place.octets.splitOnP (· = slash) = [] :: place := by
    rw [octets_of_ne_nil hplace]
    change ([] ++ place.flatMap (slash :: ·)).splitOnP _ = _
    refine splitOnP_flatMap_cons (by simp) (fun name hname octet hoctet => ?_) (by simp)
    exact decide_eq_false fun heq => (h name hname).noSlash (heq ▸ hoctet)
  have hnames : place.filter (!·.isEmpty) = place :=
    List.filter_eq_self.2 fun name hname => by simp [(h name hname).nonempty]
  have hlast : place.octets.getLast? ≠ some slash := by
    rcases List.eq_nil_or_concat place with rfl | ⟨upper, name, rfl⟩
    · exact absurd rfl hplace
    · rw [List.concat_eq_append] at h hplace ⊢
      have hname := h name (by simp)
      rw [octets_of_ne_nil hplace, List.flatMap_append, List.flatMap_singleton]
      -- the last octet is that of the last name
      rw [List.getLast?_append, List.getLast?_cons, List.getLast?_eq_some_getLast hname.nonempty, Option.getD_some,
        Option.some_or]
      exact fun heq => hname.noSlash (Option.some.inj heq ▸ List.getLast_mem hname.nonempty)
  have hhead : place.octets.head? = some slash := by
    cases place with
    | nil => exact absurd rfl hplace
    | cons name rest => rfl
  rw [Route.ofOctets, hsplit, hhead]
  simp [hlast, hnames]

/-! ### Page paths -/

/-- The path of a place as a text. -/
def text (place : Place) : List Char := place.flatMap fun name => '/' :: Utf8.decodeLossy name

theorem encode_text (hplain : place.IsPlain) (hplace : place ≠ []) : Utf8.encode place.text = place.octets := by
  rw [octets_of_ne_nil hplace, text, Utf8.encode, List.flatMap_assoc]
  refine List.flatMap_congr fun name hname => ?_
  have hslash : Utf8.encodeChar '/' = [slash] := by decide
  rw [List.flatMap_cons, hslash]
  exact congrArg (slash :: ·) (Name.encode_decodeLossy (hplain name hname))

theorem isName_of_mem_map (hproper : ∀ name ∈ place, name.IsProper) (hplain : place.IsPlain) {segment : Segment}
    (h : segment ∈ place.map Utf8.decodeLossy) : IsName segment := by
  obtain ⟨name, hname, rfl⟩ := List.mem_map.1 h
  exact Name.isName_decodeLossy (hproper name hname) (hplain name hname)

theorem text_eq_cons (hplace : place ≠ []) : place.text = '/' :: ['/'].intercalate (place.map Utf8.decodeLossy) := by
  rw [text, ← flatMap_cons_eq_intercalate '/' (by simpa using hplace), List.flatMap_map]

/-- The path of a place is that of its names from the root. -/
theorem toText_map (hplace : place ≠ []) : toText ⟨true, place.map Utf8.decodeLossy⟩ = place.text := by
  rw [toText, if_pos rfl, text_eq_cons hplace]

theorem normalize_text (hproper : ∀ name ∈ place, name.IsProper) (hplain : place.IsPlain) (hplace : place ≠ []) :
    normalize (String.ofList place.text) = String.ofList place.text := by
  have hnormal := isNormal_of_isName true fun _ => isName_of_mem_map hproper hplain
  rw [normalize, String.toList_ofList, ← toText_map hplace, ofText_toText hnormal]

/-- **The page path of a place spells it out**, if its names are proper and plain. -/
theorem pageKey_octets (hproper : ∀ name ∈ place, name.IsProper) (hplain : place.IsPlain) (hplace : place ≠ []) :
    pageKey place.octets = String.ofList place.text := by
  have hmark : withoutExtendedMark place.text = place.text := by
    cases place with
    | nil => exact absurd rfl hplace
    | cons name rest => rfl
  rw [pageKey, ← encode_text hplain hplace, Utf8.decodeLossy_encode, hmark, normalize_text hproper hplain hplace]

theorem encode_pageKey (hproper : ∀ name ∈ place, name.IsProper) (hplain : place.IsPlain) (hplace : place ≠ []) :
    Utf8.encode (pageKey place.octets).toList = place.octets := by
  rw [pageKey_octets hproper hplain hplace, String.toList_ofList, encode_text hplain hplace]

/-- A page path is in normal form. -/
theorem normalize_pageKey (hproper : ∀ name ∈ place, name.IsProper) (hplain : place.IsPlain) (hplace : place ≠ []) :
    normalize (pageKey place.octets) = pageKey place.octets := by
  rw [pageKey_octets hproper hplain hplace, normalize_text hproper hplain hplace]

/-- **Places with plain names have different page paths.** -/
theorem eq_of_pageKey_eq {other : Place} (hproper : ∀ name ∈ place, name.IsProper) (hplain : place.IsPlain)
    (hplace : place ≠ []) (hproper' : ∀ name ∈ other, name.IsProper) (hplain' : other.IsPlain) (hother : other ≠ [])
    (h : pageKey place.octets = pageKey other.octets) : place = other := by
  have hoctets : place.octets = other.octets := by
    rw [← encode_pageKey hproper hplain hplace, h, encode_pageKey hproper' hplain' hother]
  have hroutes := ofOctets_octets hproper hplace
  rw [hoctets, ofOctets_octets hproper' hother] at hroutes
  exact (congrArg Route.names hroutes).symm

end Place

end PageGraph
