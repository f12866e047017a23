import Mathlib.Data.List.Basic

/-!
# Lists

What is said of lists in general where texts are taken apart or put together.

* `splitOnP_flatMap_cons`, `splitOnP_intercalate`, `splitOnP_flatMap_concat` : texts with separators before, between or
  behind them are split into these texts;
* `forall_of_mem_splitOnP`, `exists_of_mem_splitOnP` : no separator is left in a part, and one comes after each part but
  the last;
* `append_inj_of_forall`, `append_cons_inj_of_forall` : a list is taken apart in one way at its first item of another kind;
* `prefix_append_cons_iff`, `infix_append_cons_iff` : a part of a list is on one side of an item that it does not hold;
* `mapM_of_forall_eq_some`, `mapM_cons_eq_some` : what `mapM` gives in `Option`, the results of all items, or nothing as
  soon as one item has none;
* `lookup_eq_some_iff_mem` : looking up a key among entries with different keys.
-/

namespace PageGraph

/-! ### Splitting -/

section

variable {α : Type} {isSep : α → Bool}

/-- Texts with a separator before each of them are split into these texts. -/
theorem splitOnP_flatMap_cons {sep : α} (hsep : isSep sep = true) {pieces : List (List α)}
    (h : ∀ piece ∈ pieces, ∀ x ∈ piece, isSep x = false) {first : List α} (hfirst : ∀ x ∈ first, isSep x = false) :
    (first ++ pieces.flatMap (sep :: ·)).splitOnP isSep = first :: pieces := by
  induction pieces generalizing first with
  | nil => rw [List.flatMap_nil, List.append_nil, List.splitOnP_eq_singleton hfirst]
  | cons piece pieces ih =>
    rw [List.flatMap_cons, List.cons_append, List.splitOnP_append_cons_of_forall_mem hfirst sep hsep,
      ih (fun other hother => h other (List.mem_cons_of_mem piece hother)) (h piece List.mem_cons_self)]

theorem intercalate_cons_eq_append_flatMap (sep : α) (first : List α) (pieces : List (List α)) :
    [sep].intercalate (first :: pieces) = first ++ pieces.flatMap (sep :: ·) := by
  induction pieces generalizing first with
  | nil => rw [List.flatMap_nil, List.append_nil, List.intercalate_singleton]
  | cons piece pieces ih =>
    rw [List.intercalate_cons_cons, ih, List.flatMap_cons, List.append_assoc, List.singleton_append, List.cons_append]

/-- Texts with a separator between them are split into these texts. -/
theorem splitOnP_intercalate {sep : α} (hsep : isSep sep = true) {pieces : List (List α)} (hne : pieces ≠ [])
    (h : ∀ piece ∈ pieces, ∀ x ∈ piece, isSep x = false) :
    ([sep].intercalate pieces).splitOnP isSep = pieces := by
  obtain ⟨first, rest, rfl⟩ := List.exists_cons_of_ne_nil hne
  rw [intercalate_cons_eq_append_flatMap]
  exact splitOnP_flatMap_cons hsep (fun piece hpiece => h piece (List.mem_cons_of_mem first hpiece))
    (h first List.mem_cons_self)

theorem flatMap_cons_eq_intercalate (sep : α) {pieces : List (List α)} (h : pieces ≠ []) :
    pieces.flatMap (sep :: ·) = sep :: [sep].intercalate pieces := by
  obtain ⟨first, rest, rfl⟩ := List.exists_cons_of_ne_nil h
  rw [intercalate_cons_eq_append_flatMap, List.flatMap_cons, List.cons_append]

/-- Texts with a separator behind each of them are split into these texts, with nothing left at the end. -/
theorem splitOnP_flatMap_concat {sep : α} (hsep : isSep sep = true) {pieces : List (List α)}
    (h : ∀ piece ∈ pieces, ∀ x ∈ piece, isSep x = false) :
    (pieces.flatMap (· ++ [sep])).splitOnP isSep = pieces ++ [[]] := by
  induction pieces with
  | nil => simp
  | cons piece pieces ih =>
    rw [List.flatMap_cons, List.append_assoc, List.singleton_append,
      List.splitOnP_append_cons_of_forall_mem (h piece List.mem_cons_self) sep hsep,
      ih fun other hother => h other (List.mem_cons_of_mem piece hother), List.cons_append]

/-- No part of a text that was split holds a separator. -/
theorem forall_of_mem_splitOnP {text piece : List α} (h : piece ∈ text.splitOnP isSep) : ∀ x ∈ piece, isSep x = false := by
  induction text generalizing piece with
  | nil =>
    obtain rfl := List.mem_singleton.1 h
    exact fun x hx => nomatch hx
  | cons first text ih =>
    rw [List.splitOnP_cons_eq_if_modifyHead] at h
    split at h
    · rcases List.mem_cons.1 h with rfl | h
      · exact fun x hx => nomatch hx
      · exact ih h
    · next hfirst =>
      obtain ⟨head, rest, hsplit⟩ := List.exists_cons_of_ne_nil (List.splitOnP_ne_nil isSep text)
      rw [hsplit, List.modifyHead_cons] at h
      rcases List.mem_cons.1 h with rfl | h
      · intro x hx
        rcases List.mem_cons.1 hx with rfl | hx
        · exact Bool.eq_false_iff.2 hfirst
        · exact ih (hsplit ▸ List.mem_cons_self) x hx
      · exact ih (hsplit ▸ List.mem_cons_of_mem head h)

/-- A text up to its first separator. -/
theorem exists_before_separator (isSep : α → Bool) (text : List α) :
    ∃ first after, text = first ++ after ∧ (∀ x ∈ first, isSep x = false) ∧
      (after = [] ∨ ∃ sep rest, after = sep :: rest ∧ isSep sep = true) := by
  induction text with
  | nil => exact ⟨[], [], rfl, nofun, .inl rfl⟩
  | cons x text ih =>
    cases hx : isSep x with
    | true => exact ⟨[], x :: text, rfl, nofun, .inr ⟨x, text, rfl, hx⟩⟩
    | false =>
      obtain ⟨first, after, rfl, hfirst, hafter⟩ := ih
      refine ⟨x :: first, after, rfl, fun y hy => ?_, hafter⟩
      rcases List.mem_cons.1 hy with rfl | hy
      · exact hx
      · exact hfirst y hy

/-- A part of a text that was split stands in the text, before a separator or at the end. -/
theorem exists_of_mem_splitOnP {text piece : List α} (h : piece ∈ text.splitOnP isSep) :
    ∃ before after, text = before ++ (piece ++ after) ∧
      (after = [] ∨ ∃ sep rest, after = sep :: rest ∧ isSep sep = true) := by
  induction hlength : text.length using Nat.strongRecOn generalizing text with
  | ind length ih =>
    obtain ⟨first, after, rfl, hfirst, rfl | ⟨sep, rest, rfl, hsep⟩⟩ := exists_before_separator isSep text
    · rw [List.append_nil, List.splitOnP_eq_singleton hfirst, List.mem_singleton] at h
      exact ⟨[], [], by rw [h, List.nil_append], .inl rfl⟩
    · rw [List.splitOnP_append_cons_of_forall_mem hfirst sep hsep] at h
      rcases List.mem_cons.1 h with rfl | h
      · exact ⟨[], sep :: rest, rfl, .inr ⟨sep, rest, rfl, hsep⟩⟩
      · have hshorter : rest.length < length := by
          rw [← hlength, List.length_append, List.length_cons]
          omega
        obtain ⟨before, after, hbefore, hafter⟩ := ih rest.length hshorter h rfl
        exact ⟨first ++ sep :: before, after, by rw [hbefore, List.append_assoc, List.cons_append], hafter⟩

end

/-! ### The first item of another kind -/

section

variable {α : Type} {isKind : α → Bool} {first second rest behind : List α}

theorem ne_of_isKind {x y : α} (hx : isKind x = true) (hy : isKind y = false) : x ≠ y := by
  rintro rfl
  rw [hx] at hy
  cases hy

theorem takeWhile_append_of_head? (hfirst : ∀ a ∈ first, isKind a = true) (hrest : ∀ x ∈ rest.head?, isKind x = false) :
    (first ++ rest).takeWhile isKind = first := by
  rw [List.takeWhile_append_of_pos hfirst]
  cases rest with
  | nil => simp
  | cons x rest => simp [hrest x rfl]

theorem dropWhile_append_of_head? (hfirst : ∀ a ∈ first, isKind a = true) (hrest : ∀ x ∈ rest.head?, isKind x = false) :
    (first ++ rest).dropWhile isKind = rest := by
  rw [List.dropWhile_append_of_pos hfirst]
  cases rest with
  | nil => rfl
  | cons x rest => simp [hrest x rfl]

/-- A list is taken apart in one way into items of a kind and a rest that starts with another kind. -/
theorem append_inj_of_forall (hfirst : ∀ a ∈ first, isKind a = true) (hrest : ∀ x ∈ rest.head?, isKind x = false)
    (hsecond : ∀ a ∈ second, isKind a = true) (hbehind : ∀ x ∈ behind.head?, isKind x = false)
    (h : first ++ rest = second ++ behind) : first = second ∧ rest = behind := by
  have heq : first = second := by
    rw [← takeWhile_append_of_head? hfirst hrest, h, takeWhile_append_of_head? hsecond hbehind]
  rw [heq] at h
  exact ⟨heq, List.append_cancel_left h⟩

/-- A list is taken apart in one way at its first item of another kind. -/
theorem append_cons_inj_of_forall {x y : α} (hfirst : ∀ a ∈ first, isKind a = true) (hx : isKind x = false)
    (hsecond : ∀ a ∈ second, isKind a = true) (hy : isKind y = false) (h : first ++ x :: rest = second ++ y :: behind) :
    first = second ∧ x = y ∧ rest = behind := by
  obtain ⟨heq, hcons⟩ := append_inj_of_forall hfirst (by simpa using hx) hsecond (by simpa using hy) h
  exact ⟨heq, List.cons.inj hcons⟩

end

/-! ### Parts beside an item -/

section

variable {α : Type} {x : α} {part : List α}

/-- A part that does not hold an item stands at the start before that item. -/
theorem prefix_append_cons_iff (h : x ∉ part) (before after : List α) : part <+: before ++ x :: after ↔ part <+: before := by
  induction before generalizing part with
  | nil =>
    cases part with
    | nil => simp
    | cons y part =>
      have hne : y ≠ x := fun heq => h (heq ▸ List.mem_cons_self)
      simp [List.cons_prefix_cons, hne]
  | cons z before ih =>
    cases part with
    | nil => simp
    | cons y part =>
      have hpart : x ∉ part := fun hmem => h (List.mem_cons_of_mem y hmem)
      simp only [List.cons_append, List.cons_prefix_cons, ih hpart]

/-- A part that does not hold an item stands before that item or behind it. -/
theorem infix_append_cons_iff (h : x ∉ part) (before after : List α) :
    part <:+: before ++ x :: after ↔ part <:+: before ∨ part <:+: after := by
  induction before with
  | nil =>
    have hprefix := prefix_append_cons_iff h [] after
    rw [List.nil_append, List.prefix_nil] at hprefix
    rw [List.nil_append, List.infix_cons_iff, hprefix, List.infix_nil]
  | cons z before ih =>
    have hprefix := prefix_append_cons_iff h (z :: before) after
    rw [List.cons_append] at hprefix
    rw [List.cons_append, List.infix_cons_iff, List.infix_cons_iff, hprefix, ih, or_assoc]

end

/-! ### Item by item -/

/-- Lists that agree in one respect agree in another, if their items do. -/
theorem map_eq_map_of_forall {α β γ : Type} {f : α → β} {g : α → γ} {items others : List α}
    (h : ∀ item ∈ items, ∀ other ∈ others, f item = f other → g item = g other) (heq : items.map f = others.map f) :
    items.map g = others.map g := by
  induction items generalizing others with
  | nil =>
    rw [List.map_nil, eq_comm, List.map_eq_nil_iff] at heq
    rw [heq]
  | cons item items ih =>
    obtain ⟨other, others, rfl, hitem, hitems⟩ := List.map_eq_cons_iff.1 heq.symm
    have hrest := ih (fun a ha b hb => h a (List.mem_cons_of_mem item ha) b (List.mem_cons_of_mem other hb)) hitems.symm
    rw [List.map_cons, List.map_cons, h item List.mem_cons_self other List.mem_cons_self hitem.symm, hrest]

variable {α β : Type} {read : α → Option β}

theorem findSome?_congr {items : List α} {other : α → Option β} (h : ∀ item ∈ items, read item = other item) :
    items.findSome? read = items.findSome? other := by
  induction items with
  | nil => rfl
  | cons item items ih =>
    rw [List.findSome?_cons, List.findSome?_cons, h item List.mem_cons_self,
      ih fun next hnext => h next (List.mem_cons_of_mem item hnext)]

theorem mapM_of_forall_eq_some {value : α → β} {items : List α}
    (h : ∀ item ∈ items, read item = some (value item)) :
    items.mapM read = some (items.map value) := by
  induction items with
  | nil => rfl
  | cons item items ih =>
    have hitem := h item List.mem_cons_self
    have hitems := ih fun other hother => h other (List.mem_cons_of_mem item hother)
    rw [List.mapM_cons, hitem, hitems]
    rfl

/-- Values are read back from what they are written as, if each of them is. -/
theorem mapM_map_eq_some {write : β → α} {values : List β} (h : ∀ value ∈ values, read (write value) = some value) :
    (values.map write).mapM read = some values := by
  rw [List.mapM_map, ← List.map_id values, List.mapM_map]
  exact mapM_of_forall_eq_some h

theorem mapM_cons_eq_some {item : α} {items : List α} {values : List β} :
    (item :: items).mapM read = some values ↔
      ∃ value rest, read item = some value ∧ items.mapM read = some rest ∧ values = value :: rest := by
  rw [List.mapM_cons]
  cases hitem : read item with
  | none => simp
  | some value =>
    cases hitems : items.mapM read with
    | none => simp
    | some rest => simp [eq_comm]

/-- Each item is read. -/
theorem exists_of_mapM_eq_some {items : List α} {values : List β} (h : items.mapM read = some values)
    {item : α} (hitem : item ∈ items) : ∃ value ∈ values, read item = some value := by
  induction items generalizing values with
  | nil => cases hitem
  | cons first items ih =>
    obtain ⟨value, rest, hfirst, hrest, rfl⟩ := mapM_cons_eq_some.1 h
    rcases List.mem_cons.1 hitem with rfl | hitem
    · exact ⟨value, List.mem_cons_self, hfirst⟩
    · obtain ⟨other, hother, hread⟩ := ih hrest hitem
      exact ⟨other, List.mem_cons_of_mem _ hother, hread⟩

/-- Each result is that of an item. -/
theorem exists_item_of_mapM_eq_some {items : List α} {values : List β} (h : items.mapM read = some values)
    {value : β} (hvalue : value ∈ values) : ∃ item ∈ items, read item = some value := by
  induction items generalizing values with
  | nil =>
    obtain rfl := Option.some.inj h
    cases hvalue
  | cons first items ih =>
    obtain ⟨head, rest, hfirst, hrest, rfl⟩ := mapM_cons_eq_some.1 h
    rcases List.mem_cons.1 hvalue with rfl | hvalue
    · exact ⟨first, List.mem_cons_self, hfirst⟩
    · obtain ⟨item, hitem, hread⟩ := ih hrest hvalue
      exact ⟨item, List.mem_cons_of_mem _ hitem, hread⟩

/-! ### Entries with keys -/

/-- Where no key stands twice, looking a key up finds the entry that has it. -/
theorem lookup_eq_some_iff_mem {κ : Type} [DecidableEq κ] {entries : List (κ × α)} (h : (entries.map Prod.fst).Nodup)
    {key : κ} {value : α} : entries.lookup key = some value ↔ (key, value) ∈ entries := by
  induction entries with
  | nil => simp
  | cons entry entries ih =>
    obtain ⟨other, first⟩ := entry
    rw [List.map_cons, List.nodup_cons] at h
    rw [List.lookup_cons, List.mem_cons]
    by_cases heq : key = other
    · subst heq
      have hothers : (key, value) ∉ entries := fun hmem => h.1 (List.mem_map.2 ⟨_, hmem, rfl⟩)
      simp [hothers, eq_comm]
    · have hbeq : (key == other) = false := beq_eq_false_iff_ne.2 heq
      simp [hbeq, heq, ih h.2]

end PageGraph
