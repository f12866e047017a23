import PageGraph.Proofs.Disk.PlainNames

/-!
# Page paths below a directory

The names above a directory may be any octets: they are brought into some form, of which nothing need be known, and
the plain names below the directory come after it as they are. So places below one directory have different page
paths, if the names below it are plain.

* `segments_pageKey` : the segments of the page path of a place below a directory;
* `eq_of_pageKey_append_eq` : places below one directory with different page paths.
-/

namespace PageGraph.Place

open Text PagePath

variable {base rest other : Place}

theorem octets_append (hbase : base ≠ []) (hrest : rest ≠ []) : (base ++ rest).octets = base.octets ++ rest.octets := by
  rw [octets_of_ne_nil hbase, octets_of_ne_nil hrest, octets_of_ne_nil (by simp [hbase]), List.flatMap_append]

/-- The octets of a place with plain names, from the first slash on. -/
theorem octets_eq_cons (hplain : rest.IsPlain) (hrest : rest ≠ []) :
    rest.octets = 47 :: Utf8.encode (['/'].intercalate (rest.map Utf8.decodeLossy)) := by
  have hslash : Utf8.encodeChar '/' = [47] := by decide
  rw [← encode_text hplain hrest, text_eq_cons hrest, Utf8.encode, List.flatMap_cons, hslash]
  rfl

/-- The path of a directory, as it is read, starts with a slash. -/
theorem decodeLossy_octets_eq_cons (base : Place) : ∃ text, Utf8.decodeLossy base.octets = '/' :: text := by
  obtain ⟨octets, hoctets⟩ : ∃ octets, base.octets = [] ++ 47 :: octets := by
    cases base with
    | nil => exact ⟨[], rfl⟩
    | cons name rest => exact ⟨name ++ rest.flatMap (slash :: ·), rfl⟩
  rw [hoctets, Utf8.decodeLossy_append_slash]
  exact ⟨_, rfl⟩

/-- **The page path of a place below a directory** goes on from that of the directory with the names below it. -/
theorem segments_pageKey (base : Place) (hproper : ∀ name ∈ rest, name.IsProper) (hplain : rest.IsPlain)
    (hrest : rest ≠ []) :
    (ofText (pageKey (base ++ rest).octets).toList).segments =
      (ofText (Utf8.decodeLossy base.octets)).segments ++ rest.map Utf8.decodeLossy := by
  by_cases hbase : base = []
  · subst hbase
    have hroot : (ofText (Utf8.decodeLossy (octets []))).segments = [] := by decide
    rw [hroot, List.nil_append, List.nil_append, pageKey_octets hproper hplain hrest, String.toList_ofList,
      ← toText_map hrest, ofText_toText (isNormal_of_isName true fun _ => isName_of_mem_map hproper hplain)]
  · obtain ⟨text, htext⟩ := decodeLossy_octets_eq_cons base
    have hmark : ∀ lower : List Char, withoutExtendedMark ('/' :: lower) = '/' :: lower := fun _ => rfl
    have hpieces : pieces (['/'].intercalate (rest.map Utf8.decodeLossy)) = rest.map Utf8.decodeLossy := by
      refine splitOnP_intercalate (by decide) (by simpa using hrest) fun segment hsegment => ?_
      exact (isName_of_mem_map hproper hplain hsegment).noSeparator
    rw [pageKey, ofText_normalize, String.toList_ofList, octets_append hbase hrest, octets_eq_cons hplain hrest,
      Utf8.decodeLossy_append_slash, Utf8.decodeLossy_encode, htext, List.cons_append, hmark, ← List.cons_append,
      ofText_append (List.cons_ne_nil _ _), hpieces,
      foldl_push_names (fun _ => isName_of_mem_map hproper hplain), List.reverse_append, List.reverse_reverse,
      List.reverse_reverse]

/-- **Places below one directory** with plain names below it have different page paths. -/
theorem eq_of_pageKey_append_eq (hproper : ∀ name ∈ rest, name.IsProper) (hplain : rest.IsPlain) (hrest : rest ≠ [])
    (hproper' : ∀ name ∈ other, name.IsProper) (hplain' : other.IsPlain) (hother : other ≠ [])
    (h : pageKey (base ++ rest).octets = pageKey (base ++ other).octets) : rest = other := by
  have hsegments := segments_pageKey base hproper hplain hrest
  rw [h, segments_pageKey base hproper' hplain' hother] at hsegments
  have htexts := List.append_cancel_left hsegments
  -- a plain name is what its text is encoded as
  have hnames : ∀ {place : Place}, place.IsPlain → (place.map Utf8.decodeLossy).map Utf8.encode = place := by
    intro place hplace
    have hid : place.map (Utf8.encode ∘ Utf8.decodeLossy) = place.map id :=
      List.map_congr_left fun name hname => Name.encode_decodeLossy (hplace name hname)
    rw [List.map_map, hid, List.map_id]
  rw [← hnames hplain, ← htexts, hnames hplain']

end PageGraph.Place
