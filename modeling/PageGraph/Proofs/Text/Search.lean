import Mathlib.Data.List.Infix
import PageGraph.Text.Search

/-!
# Where a token occurs

A token occurs in a text if it is a part of the text, except that an empty token occurs nowhere.

* `occursIn_iff`, `anyOccursIn_iff` : occurring, told by `List.IsInfix`, and with them when no token occurs;
* `splitAtFirst?_append`, `splitAtFirst?_eq_some_iff` : a text that begins with a token is split there, and every other
  one where the token occurs first;
* `isSome_splitAtLast?`, `occursIn_of_splitAtLast?_eq_some` : a text with the token has a last occurrence of it, and
  there is none after that;
* `splitAtLast?_singleton_eq_some_iff` : splitting at the last occurrence of a character.
-/

namespace PageGraph.Text

theorem opensWith_iff {token text : List Char} : opensWith token text = true ↔ token ≠ [] ∧ token <+: text := by
  rw [opensWith, Bool.and_eq_true, List.isPrefixOf_iff_prefix, Bool.not_eq_true', List.isEmpty_eq_false_iff]

theorem occursIn_cons (token : List Char) (c : Char) (text : List Char) :
    occursIn token (c :: text) = (opensWith token (c :: text) || occursIn token text) := by
  rw [occursIn, splitAtFirst?]
  split
  · next hopens => rw [hopens, Bool.true_or, Option.isSome_some]
  · next hopens => rw [Bool.not_eq_true] at hopens; rw [hopens, Bool.false_or, Option.isSome_map, occursIn]

/-- **A token occurs in a text** exactly if it is not empty and a part of the text. -/
theorem occursIn_iff {token text : List Char} : occursIn token text = true ↔ token ≠ [] ∧ token <:+: text := by
  induction text with
  | nil =>
    rw [List.infix_nil]
    exact ⟨nofun, fun h => absurd h.2 h.1⟩
  | cons c text ih => rw [occursIn_cons, Bool.or_eq_true, opensWith_iff, ih, List.infix_cons_iff, and_or_left]

theorem anyOccursIn_iff {tokens : List String} {text : List Char} :
    anyOccursIn tokens text = true ↔ ∃ token ∈ tokens, token ≠ "" ∧ token.toList <:+: text := by
  simp only [anyOccursIn, List.any_eq_true, occursIn_iff, ne_eq, String.toList_eq_nil_iff]

theorem occursIn_eq_false_iff {token text : List Char} : occursIn token text = false ↔ (token ≠ [] → ¬token <:+: text) := by
  rw [Bool.eq_false_iff, ne_eq, occursIn_iff, not_and]

theorem anyOccursIn_eq_false_iff {tokens : List String} {text : List Char} :
    anyOccursIn tokens text = false ↔ ∀ token ∈ tokens, token ≠ "" → ¬token.toList <:+: text := by
  rw [Bool.eq_false_iff, ne_eq, anyOccursIn_iff]
  simp only [not_exists, not_and]

theorem splitAtFirst?_eq_none {token text : List Char} (h : occursIn token text = false) :
    splitAtFirst? token text = none := by
  rwa [occursIn, Option.isSome_eq_false_iff, Option.isNone_iff_eq_none] at h

/-- A text that begins with a token is split there. -/
theorem splitAtFirst?_append {token : List Char} (h : token ≠ []) (rest : List Char) :
    splitAtFirst? token (token ++ rest) = some ([], rest) := by
  obtain ⟨c, token, rfl⟩ := List.exists_cons_of_ne_nil h
  have hopens : opensWith (c :: token) (c :: (token ++ rest)) = true :=
    opensWith_iff.2 ⟨h, List.prefix_append (c :: token) rest⟩
  rw [List.cons_append, splitAtFirst?, if_pos hopens, ← List.cons_append, List.drop_left]

/-- Before its first occurrence a token does not occur. -/
theorem length_le_of_splitAtFirst?_eq_some {token text before after earlier later : List Char} (htoken : token ≠ [])
    (h : splitAtFirst? token text = some (before, after)) (htext : text = earlier ++ (token ++ later)) :
    before.length ≤ earlier.length := by
  induction text generalizing before earlier with
  | nil => cases h
  | cons c text ih =>
    rw [splitAtFirst?] at h
    split at h
    · obtain ⟨rfl, -⟩ := Prod.mk.inj (Option.some.inj h)
      exact Nat.zero_le _
    · next hopens =>
      obtain ⟨⟨before, after⟩, hsplit, h⟩ := Option.map_eq_some_iff.1 h
      obtain ⟨rfl, rfl⟩ := Prod.mk.inj h
      cases earlier with
      | nil =>
        rw [List.nil_append] at htext
        exact absurd (opensWith_iff.2 ⟨htoken, htext ▸ List.prefix_append token later⟩) hopens
      | cons d earlier => exact Nat.succ_le_succ (ih hsplit (List.cons.inj htext).2)

/-- **A text is split at the first occurrence of a token.** -/
theorem splitAtFirst?_eq_some_iff {token text before after : List Char} (htoken : token ≠ []) :
    splitAtFirst? token text = some (before, after) ↔ text = before ++ (token ++ after) ∧
      ∀ earlier later, text = earlier ++ (token ++ later) → before.length ≤ earlier.length := by
  constructor
  · intro h
    refine ⟨by rw [splitAtFirst?_eq_some h, List.append_assoc], fun earlier later htext => ?_⟩
    exact length_le_of_splitAtFirst?_eq_some htoken h htext
  · rintro ⟨htext, hfirst⟩
    have hoccurs : occursIn token text = true := occursIn_iff.2 ⟨htoken, before, after, by rw [htext, List.append_assoc]⟩
    obtain ⟨⟨before', after'⟩, hsplit⟩ := Option.isSome_iff_exists.1 hoccurs
    have htext' : text = before' ++ (token ++ after') := by rw [splitAtFirst?_eq_some hsplit, List.append_assoc]
    -- neither of the two occurrences comes before the other one
    have hlength := Nat.le_antisymm (hfirst before' after' htext')
      (length_le_of_splitAtFirst?_eq_some htoken hsplit htext)
    obtain ⟨rfl, hrest⟩ := List.append_inj (htext.symm.trans htext') hlength
    rw [hsplit, List.append_cancel_left hrest]

theorem isSome_splitAtLast? (token text : List Char) : (splitAtLast? token text).isSome = occursIn token text := by
  induction text with
  | nil => rfl
  | cons c text ih =>
    rw [occursIn_cons, splitAtLast?, ← ih]
    cases hsplit : splitAtLast? token text with
    | some parts => exact (Bool.or_true _).symm
    | none => cases hopens : opensWith token (c :: text) <;> rfl

/-- After its last occurrence a token does not occur again. -/
theorem occursIn_of_splitAtLast?_eq_some {token text before after : List Char}
    (h : splitAtLast? token text = some (before, after)) : occursIn token after = false := by
  induction text generalizing before with
  | nil => cases h
  | cons c text ih =>
    rw [splitAtLast?] at h
    cases hsplit : splitAtLast? token text with
    | some parts =>
      rw [hsplit] at h
      obtain ⟨-, rfl⟩ := Prod.mk.inj (Option.some.inj h)
      exact ih hsplit
    | none =>
      rw [hsplit] at h
      dsimp only at h
      split at h
      · next hopens =>
        obtain ⟨-, rfl⟩ := Prod.mk.inj (Option.some.inj h)
        -- what is after the token is a part of the text, and the text does not hold the token
        obtain ⟨first, token, rfl⟩ := List.exists_cons_of_ne_nil (opensWith_iff.1 hopens).1
        have htext : occursIn (first :: token) text = false := by
          rw [← isSome_splitAtLast?, hsplit]
          rfl
        rw [Bool.eq_false_iff] at htext ⊢
        intro hafter
        have hdrop : (c :: text).drop (first :: token).length = text.drop token.length := rfl
        rw [hdrop, occursIn_iff] at hafter
        exact htext (occursIn_iff.2 ⟨hafter.1, hafter.2.trans (List.drop_suffix _ _).isInfix⟩)
      · cases h

theorem occursIn_singleton_eq_false_iff {c : Char} {text : List Char} : occursIn [c] text = false ↔ c ∉ text := by
  rw [occursIn_eq_false_iff, List.singleton_infix_iff]
  exact ⟨fun h => h (List.cons_ne_nil _ _), fun h _ => h⟩

/-- **A text is split at the last occurrence of a character**: behind it the character does not occur. -/
theorem splitAtLast?_singleton_eq_some_iff {c : Char} {text before after : List Char} :
    splitAtLast? [c] text = some (before, after) ↔ text = before ++ c :: after ∧ c ∉ after := by
  constructor
  · intro h
    have htext := splitAtLast?_eq_some h
    rw [List.append_assoc, List.singleton_append] at htext
    exact ⟨htext, occursIn_singleton_eq_false_iff.1 (occursIn_of_splitAtLast?_eq_some h)⟩
  · rintro ⟨rfl, hafter⟩
    induction before with
    | nil =>
      have hnone : splitAtLast? [c] after = none := by
        rw [← Option.isNone_iff_eq_none, ← Option.isSome_eq_false_iff, isSome_splitAtLast?]
        exact occursIn_singleton_eq_false_iff.2 hafter
      have hopens : opensWith [c] (c :: after) = true := opensWith_iff.2 ⟨List.cons_ne_nil _ _, by simp⟩
      rw [List.nil_append, splitAtLast?, hnone]
      exact if_pos hopens
    | cons d before ih => rw [List.cons_append, splitAtLast?, ih]

end PageGraph.Text
