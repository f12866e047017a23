import PageGraph.Proofs.DataFile.Records
import PageGraph.Proofs.Tree.Occurrences
import PageGraph.Tree.Json

/-!
# Data files of trees

A tree is written with all that it holds, and what is decoded may nest only so deep. So a written tree is read back
exactly if its JSON form does not nest deeper than that, and otherwise it is refused: no other tree comes out.

What is read has numbers of at most 64 bits, and so has a tree of a corpus that nests no deeper than can be
read, since the depths that it states are its own.

* `Tree.Fits` : the numbers in a tree have at most 64 bits;
* `Tree.ofJson?_toJson` and `Tree.nesting_le_of_ofJson?_toJson` : a written tree is read back iff it nests no deeper than
  what is left;
* `Corpus.fits_of_nesting_le` : the numbers in the trees of a corpus.

* `Tree.ofFileText?_fileText_eq_ite` : what comes of a written data file.
-/

namespace PageGraph

open Json

/-! ### Marks -/

namespace Includer

/-- What the fields of an includer are given. -/
def fields (includer : Includer) : List (String × Option Json) :=
  [("path", some (.ofString includer.path)), ("depth", some (.ofNat includer.depth))]

theorem written_toJson (includer : Includer) : Written includer.toJson := by
  refine written_ofFields ?_
  simp [written_ofString, written_ofNat]

@[simp] theorem nesting_toJson (includer : Includer) : includer.toJson.nesting = 1 := by
  simp [toJson, ofFields, nesting, memberNesting]

theorem ofJson?_toJson {includer : Includer} (h : includer.depth < UInt64.size) {room : ℕ} (hroom : 1 ≤ room) :
    ofJson? room includer.toJson = some includer := by
  obtain ⟨room, rfl⟩ := Nat.exists_eq_add_of_le' hroom
  have hfields : includer.toJson.fields? fieldNames = some (includer.fields.map Prod.snd) :=
    fields?_ofFields (by simp)
  rw [ofJson?, hfields]
  simp [enter, fields, required, nat?_ofNat h]

/-- What was read had a level left, and its depth has at most 64 bits. -/
theorem le_and_lt_of_ofJson?_eq_some {room : ℕ} {value : Json} {includer : Includer}
    (h : ofJson? room value = some includer) : 1 ≤ room ∧ includer.depth < UInt64.size := by
  cases room with
  | zero => cases h
  | succ room =>
    refine ⟨Nat.le_add_left 1 room, ?_⟩
    unfold ofJson? at h
    simp only [Option.bind_eq_bind, Option.bind_eq_some_iff] at h
    obtain ⟨_, -, given, -, h⟩ := h
    split at h
    · simp only [Option.bind_eq_some_iff] at h
      obtain ⟨path, -, depth, hdepth, h⟩ := h
      obtain rfl := Option.some.inj h
      exact lt_of_required_eq_some hdepth
    · cases h

end Includer

namespace CycleMark

/-- The depths of a mark have at most 64 bits. -/
def Fits (mark : CycleMark) : Prop :=
  mark.firstIncludedDepth < UInt64.size ∧ mark.lastIncludedBy.depth < UInt64.size

/-- What the fields of a mark are given. -/
def fields (mark : CycleMark) : List (String × Option Json) :=
  [("firstIncludedDepth", some (.ofNat mark.firstIncludedDepth)),
    ("lastIncludedBy", some mark.lastIncludedBy.toJson)]

theorem written_toJson (mark : CycleMark) : Written mark.toJson := by
  refine written_ofFields ?_
  simp [written_ofNat, mark.lastIncludedBy.written_toJson]

@[simp] theorem nesting_toJson (mark : CycleMark) : mark.toJson.nesting = 2 := by
  simp [toJson, ofFields, nesting, memberNesting]

theorem ofJson?_toJson {mark : CycleMark} (h : mark.Fits) {room : ℕ} (hroom : 2 ≤ room) :
    ofJson? room mark.toJson = some mark := by
  obtain ⟨room, rfl⟩ := Nat.exists_eq_add_of_le' hroom
  have hfields : mark.toJson.fields? fieldNames = some (mark.fields.map Prod.snd) :=
    fields?_ofFields (by simp)
  rw [ofJson?, hfields]
  simp [enter, fields, required, nat?_ofNat h.1, Includer.ofJson?_toJson h.2]

/-- What was read had two levels left, and its depths have at most 64 bits. -/
theorem le_and_fits_of_ofJson?_eq_some {room : ℕ} {value : Json} {mark : CycleMark}
    (h : ofJson? room value = some mark) : 2 ≤ room ∧ mark.Fits := by
  cases room with
  | zero => cases h
  | succ room =>
    unfold ofJson? at h
    simp only [Option.bind_eq_bind, Option.bind_eq_some_iff] at h
    obtain ⟨left, hleft, given, -, h⟩ := h
    obtain rfl := Option.some.inj hleft
    split at h
    · simp only [Option.bind_eq_some_iff] at h
      obtain ⟨first, hfirst, last, hlast, h⟩ := h
      obtain rfl := Option.some.inj h
      obtain ⟨value, -, hvalue⟩ := Option.bind_eq_some_iff.1 hlast
      obtain ⟨hroom, hdepth⟩ := Includer.le_and_lt_of_ofJson?_eq_some hvalue
      exact ⟨Nat.succ_le_succ hroom, lt_of_required_eq_some hfirst, hdepth⟩
    · cases h

end CycleMark

/-! ### Trees -/

/-- The depths that an occurrence states have at most 64 bits. -/
def Occurrence.Fits (occurrence : Occurrence) : Prop :=
  occurrence.depth < UInt64.size ∧ ∀ mark ∈ occurrence.circular, mark.Fits

namespace Tree

/-- The depths that the occurrences of a tree state have at most 64 bits. -/
def Fits (tree : Tree) : Prop := ∀ occurrence ∈ tree.flatten, occurrence.Fits

theorem fits_node_iff {occurrence : Occurrence} {nested : List Tree} :
    (node occurrence nested).Fits ↔ occurrence.Fits ∧ ∀ tree ∈ nested, tree.Fits := by
  rw [Fits, flatten_eq_cons, List.forall_mem_cons]
  refine and_congr_right fun _ => ⟨fun h tree htree other hother => ?_, fun h other hother => ?_⟩
  · exact h other (List.mem_flatMap.2 ⟨tree, htree, hother⟩)
  · obtain ⟨tree, htree, hother⟩ := List.mem_flatMap.1 hother
    exact h tree htree other hother

theorem allToJson_eq_map (trees : List Tree) : allToJson trees = trees.map toJson := by
  induction trees with
  | nil => rfl
  | cons tree trees ih => rw [allToJson, ih, List.map_cons]

/-- What the fields of an occurrence with the trees below it are given. -/
def fields (occurrence : Occurrence) (nested : List Tree) : List (String × Option Json) :=
  [("name", some (.ofString occurrence.name)), ("path", some (.ofString occurrence.path)),
    ("parent", occurrence.parent.map .ofString), ("depth", some (.ofNat occurrence.depth)),
    ("nested", some (.array (nested.map toJson))), ("rawNested", occurrence.rawNested.map .ofStrings),
    ("circular", occurrence.circular.map CycleMark.toJson)]

theorem toJson_node (occurrence : Occurrence) (nested : List Tree) :
    (node occurrence nested).toJson = ofFields (fields occurrence nested) := by
  rw [toJson, occurrenceToJson, allToJson_eq_map, fields]

theorem fields?_toJson (occurrence : Occurrence) (nested : List Tree) :
    (node occurrence nested).toJson.fields? fieldNames = some ((fields occurrence nested).map Prod.snd) := by
  rw [toJson_node]
  exact fields?_ofFields (by simp [fields])

theorem written_toJson (tree : Tree) : Written tree.toJson := by
  induction tree using Tree.induct with
  | node occurrence nested ih =>
    have hnested : Written (.array (nested.map toJson)) := .array (by simpa using ih)
    rw [toJson_node]
    refine written_ofFields ?_
    simp [fields, written_ofString, written_ofNat, written_ofStrings, CycleMark.written_toJson, hnested]

/-! ### How deep a written tree nests -/

/-- The levels that the fields of an occurrence take, those of the trees below it apart. -/
def ownNesting (occurrence : Occurrence) : ℕ :=
  max (if occurrence.rawNested.isSome then 1 else 0) (if occurrence.circular.isSome then 2 else 0)

theorem nesting_toJson_node (occurrence : Occurrence) (nested : List Tree) :
    (node occurrence nested).toJson.nesting =
      max (itemNesting (nested.map toJson) + 1) (ownNesting occurrence) + 1 := by
  rw [toJson_node, fields, ownNesting]
  cases occurrence.parent <;> cases occurrence.rawNested <;> cases occurrence.circular <;>
    simp [ofFields, nesting, memberNesting]

/-! ### Reading a tree -/

/-- What was read had a level left, and each of its parts was read with the levels that are left below it. -/
theorem exists_of_ofJson?_eq_some {room : ℕ} {value : Json} {tree : Tree} (h : ofJson? room value = some tree) :
    ∃ left name path parent depth nested rawNested circular, room = left + 1 ∧
      value.fields? fieldNames = some [name, path, parent, depth, nested, rawNested, circular] ∧
      required nat? depth = some tree.occurrence.depth ∧
      optional (texts? left) rawNested = some tree.occurrence.rawNested ∧
      optional (CycleMark.ofJson? left) circular = some tree.occurrence.circular ∧
      defaulted [] (allOfJson? left) nested = some tree.nested := by
  unfold ofJson? at h
  split at h
  · cases h
  split at h
  · next left _ name path parent depth nested rawNested circular hfields =>
    simp only [Option.bind_eq_bind, Option.bind_eq_some_iff] at h
    obtain ⟨_, -, _, -, _, -, _, hdepth, _, hraw, _, hmark, _, hnested, h⟩ := h
    obtain rfl := Option.some.inj h
    exact ⟨left, name, path, parent, depth, nested, rawNested, circular, rfl, hfields, hdepth, hraw, hmark, hnested⟩
  · cases h

theorem exists_of_allOfJson?_eq_some {room : ℕ} {value : Json} {trees : List Tree}
    (h : allOfJson? room value = some trees) :
    ∃ left items, room = left + 1 ∧ value = .array items ∧ items.mapM (ofJson? left) = some trees := by
  unfold allOfJson? at h
  split at h
  · cases h
  · obtain ⟨items, hitems, h⟩ := Option.bind_eq_some_iff.1 h
    unfold items? at hitems
    split at hitems
    · obtain rfl := Option.some.inj hitems
      exact ⟨_, _, rfl, rfl, h⟩
    · cases hitems

/-- The numbers in a tree that was read have at most 64 bits. -/
theorem fits_of_ofJson?_eq_some {room : ℕ} {value : Json} {tree : Tree} (h : ofJson? room value = some tree) :
    tree.Fits := by
  induction tree using Tree.induct generalizing room value with
  | node occurrence nested ih =>
    obtain ⟨left, _, _, _, depth, given, rawGiven, markGiven, -, -, hdepth, -, hmark, hnested⟩ :=
      exists_of_ofJson?_eq_some h
    refine fits_node_iff.2 ⟨⟨lt_of_required_eq_some hdepth, fun mark hmem => ?_⟩, fun tree htree => ?_⟩
    · change optional _ _ = some occurrence.circular at hmark
      rw [hmem] at hmark
      obtain ⟨json, -, hjson⟩ := exists_of_optional_eq_some hmark
      exact (CycleMark.le_and_fits_of_ofJson?_eq_some hjson).2
    · cases given with
      | none =>
        obtain rfl := Option.some.inj hnested
        cases htree
      | some json =>
        obtain ⟨room, items, -, -, hitems⟩ := exists_of_allOfJson?_eq_some hnested
        obtain ⟨item, -, hitem⟩ := exists_item_of_mapM_eq_some hitems htree
        exact ih tree htree hitem

/-- **A written tree is read back** if it nests no deeper than what is left. -/
theorem ofJson?_toJson {tree : Tree} (h : tree.Fits) {room : ℕ} (hroom : tree.toJson.nesting ≤ room) :
    ofJson? room tree.toJson = some tree := by
  induction tree using Tree.induct generalizing room with
  | node occurrence nested ih =>
    rw [nesting_toJson_node] at hroom
    obtain ⟨⟨hdepth, hmark⟩, hnested⟩ := fits_node_iff.1 h
    cases room with
    | zero => cases hroom
    | succ room =>
      obtain ⟨hbelow, hown⟩ := Nat.max_le.1 (Nat.le_of_succ_le_succ hroom)
      obtain ⟨hrawRoom, hmarkRoom⟩ := Nat.max_le.1 hown
      have hparent : optional text? (occurrence.parent.map .ofString) = some occurrence.parent :=
        optional_map _ fun parent _ => ⟨by simp [ofString], text?_ofString parent⟩
      have hraw : optional (texts? room) (occurrence.rawNested.map .ofStrings) = some occurrence.rawNested := by
        refine optional_map _ fun references hreferences => ⟨by simp [ofStrings], texts?_ofStrings ?_ _⟩
        exact Nat.lt_of_succ_le (by simpa [Option.mem_def.1 hreferences] using hrawRoom)
      have hcircular : optional (CycleMark.ofJson? room) (occurrence.circular.map CycleMark.toJson) =
          some occurrence.circular := by
        refine optional_map _ fun mark hmem => ⟨by simp [CycleMark.toJson, ofFields], ?_⟩
        refine CycleMark.ofJson?_toJson (hmark mark hmem) ?_
        simpa [Option.mem_def.1 hmem] using hmarkRoom
      have hall : allOfJson? room (.array (nested.map toJson)) = some nested := by
        obtain ⟨left, rfl⟩ := Nat.exists_eq_add_of_le' (Nat.le_trans (Nat.le_add_left 1 _) hbelow)
        rw [allOfJson?, items?, Option.bind_some]
        refine mapM_map_eq_some fun tree htree => ih tree htree (hnested tree htree) ?_
        exact Nat.le_trans (nesting_le_itemNesting (List.mem_map_of_mem htree)) (Nat.le_of_succ_le_succ hbelow)
      rw [ofJson?, fields?_toJson]
      simp [fields, required, defaulted, hparent, hraw, hcircular, hall, nat?_ofNat hdepth]

/-- **A written tree that is read** nests no deeper than what is left. -/
theorem nesting_le_of_ofJson?_toJson {tree other : Tree} {room : ℕ}
    (h : ofJson? room tree.toJson = some other) : tree.toJson.nesting ≤ room := by
  induction tree using Tree.induct generalizing room other with
  | node occurrence nested ih =>
    obtain ⟨left, _, _, _, _, given, rawGiven, markGiven, rfl, hfields, -, hraw, hmark, hnested⟩ :=
      exists_of_ofJson?_eq_some h
    rw [fields?_toJson] at hfields
    simp only [fields, List.map_cons, List.map_nil, Option.some.injEq, List.cons.injEq, and_true] at hfields
    obtain ⟨-, -, -, -, rfl, rfl, rfl⟩ := hfields
    rw [nesting_toJson_node]
    refine Nat.succ_le_succ (Nat.max_le.2 ⟨?_, Nat.max_le.2 ⟨?_, ?_⟩⟩)
    · obtain ⟨room, items, rfl, hitems, hall⟩ := exists_of_allOfJson?_eq_some hnested
      obtain rfl := Json.array.inj hitems
      refine Nat.succ_le_succ (itemNesting_le fun item hitem => ?_)
      obtain ⟨tree, htree, rfl⟩ := List.mem_map.1 hitem
      obtain ⟨found, -, hfound⟩ := exists_of_mapM_eq_some hall hitem
      exact ih tree htree hfound
    · cases hreferences : occurrence.rawNested with
      | none => exact Nat.zero_le _
      | some references =>
        rw [hreferences, Option.map_some, optional_some (by simp [ofStrings])] at hraw
        obtain ⟨found, hfound, -⟩ := Option.map_eq_some_iff.1 hraw
        exact pos_of_texts?_eq_some hfound
    · cases hmem : occurrence.circular with
      | none => exact Nat.zero_le _
      | some mark =>
        rw [hmem, Option.map_some, optional_some (by simp [CycleMark.toJson, ofFields])] at hmark
        obtain ⟨found, hfound, -⟩ := Option.map_eq_some_iff.1 hmark
        exact (CycleMark.le_and_fits_of_ofJson?_eq_some hfound).1

/-! ### Data files -/

/-- **Trees are read back** from the data file that is written of them if it nests no deeper than can be read. -/
theorem ofFileText?_fileText {trees : List Tree} (h : ∀ tree ∈ trees, tree.Fits)
    (hnesting : (Json.array (trees.map toJson)).nesting ≤ maxOpen) :
    ofFileText? (fileText trees) = some trees := by
  refine ofFileText?_fileText_eq_some (fun tree _ => tree.written_toJson) fun tree htree => ?_
  refine ofJson?_toJson (h tree htree) ?_
  rw [nesting] at hnesting
  exact Nat.le_trans (nesting_le_itemNesting (List.mem_map_of_mem htree)) (Nat.le_of_succ_le_succ hnesting)

/-- A written data file of trees that is read nests no deeper than can be read. -/
theorem nesting_le_of_ofFileText?_fileText {trees others : List Tree}
    (h : ofFileText? (fileText trees) = some others) :
    (Json.array (trees.map toJson)).nesting ≤ maxOpen := by
  rw [ofFileText?, fileText, Json.ofFileText?_fileText ofJson? fun tree _ => tree.written_toJson] at h
  rw [nesting]
  refine Nat.succ_le_succ (itemNesting_le fun item hitem => ?_)
  obtain ⟨tree, htree, rfl⟩ := List.mem_map.1 hitem
  obtain ⟨other, -, hother⟩ := exists_of_mapM_eq_some h htree
  exact nesting_le_of_ofJson?_toJson hother

theorem fits_of_ofFileText?_eq_some {text : String} {trees : List Tree}
    (h : ofFileText? text = some trees) : ∀ tree ∈ trees, tree.Fits := by
  intro tree htree
  obtain ⟨room, value, hvalue⟩ := exists_of_ofFileText?_eq_some h htree
  exact fits_of_ofJson?_eq_some hvalue

/-- Reading back what is written of some trees gives these trees, or nothing if they nest too deep. -/
theorem ofFileText?_fileText_eq_ite {trees : List Tree}
    (h : (Json.array (trees.map toJson)).nesting ≤ maxOpen → ∀ tree ∈ trees, tree.Fits) :
    ofFileText? (fileText trees) =
      if (Json.array (trees.map toJson)).nesting ≤ maxOpen then some trees else none := by
  split
  · next hnesting => exact ofFileText?_fileText (h hnesting) hnesting
  · next hnesting =>
    refine Option.eq_none_iff_forall_ne_some.2 fun others hothers => hnesting ?_
    exact nesting_le_of_ofFileText?_fileText hothers

/-! ### Trees of a corpus -/

/-- A tree below another is written two levels deeper: in an array, and in the object of the other. -/
theorem nesting_add_two_le {tree child : Tree} (h : child ∈ tree.nested) :
    child.toJson.nesting + 2 ≤ tree.toJson.nesting := by
  obtain ⟨occurrence, nested⟩ := tree
  rw [nesting_toJson_node]
  have hitem : child.toJson.nesting ≤ itemNesting (nested.map toJson) :=
    nesting_le_itemNesting (List.mem_map_of_mem h)
  exact Nat.succ_le_succ (Nat.le_trans (Nat.succ_le_succ hitem) (Nat.le_max_left _ _))

theorem Occurs.nesting_add_le {tree sub : Tree} {above : List Tree} (h : tree.Occurs above sub) :
    sub.toJson.nesting + 2 * above.length ≤ tree.toJson.nesting := by
  induction h with
  | root => exact Nat.le_refl _
  | child _ hlower ih =>
    have hstep := nesting_add_two_le hlower
    rw [List.length_append, List.length_singleton]
    omega

end Tree

namespace Corpus

variable {corpus : Corpus}

/-- All depths that an occurrence states are below the number of levels that lead to it. -/
theorem WellPlaced.fits {above : List Tree} {sub : Tree} (h : corpus.WellPlaced above sub)
    (habove : above.length < UInt64.size) : sub.occurrence.Fits := by
  refine ⟨h.depth ▸ habove, fun mark hmark => ?_⟩
  obtain ⟨first, upper, before, includer, hcircular, rfl, hupper, -⟩ :=
    (h.endsCycle (Option.isSome_of_mem hmark)).mark
  obtain rfl := Option.some.inj ((Option.mem_def.1 hmark).symm.trans hcircular)
  obtain ⟨hfirst, -⟩ := List.getElem?_eq_some_iff.1 hupper
  rw [List.length_append, List.length_singleton] at hfirst habove
  constructor
  · change first < UInt64.size
    omega
  · change before.length < UInt64.size
    omega

/-- Where the trees of a corpus nest no deeper than can be read, their numbers have at most 64 bits. -/
theorem fits_of_nesting_le (h : (Json.array (corpus.trees.map Tree.toJson)).nesting ≤ maxOpen) :
    ∀ tree ∈ corpus.trees, tree.Fits := by
  intro tree htree occurrence hoccurrence
  obtain ⟨above, sub, hoccurs, rfl⟩ := Tree.mem_flatten_iff.1 hoccurrence
  refine (wellPlaced_of_occurs htree hoccurs).fits ?_
  have hlevels := hoccurs.nesting_add_le
  have hitem := nesting_le_itemNesting (List.mem_map_of_mem (f := Tree.toJson) htree)
  have hlimit : maxOpen < UInt64.size := by decide
  rw [nesting] at h
  omega

end Corpus

end PageGraph
