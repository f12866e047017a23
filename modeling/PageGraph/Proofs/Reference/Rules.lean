import PageGraph.Proofs.Text.Search
import PageGraph.Reference.Resolver

/-!
# Which rule applies

The rules for references are tried in order, so what a rule does is known only where no earlier one applies. Each rule
is told here with that condition, as a search for tokens in the reference.

* `candidates_eq_singleton`, `candidates_eq_map` : a reference without the multi-store macro stands for itself, one with
  it for one reference in each storefront variant;
* `anchor_of_namesStore`, `anchor_of_storeMacro`, `anchor_of_relative` : where a reference is anchored.
-/

namespace PageGraph.Resolver

variable {resolver : Resolver} {reference rest : List Char} {token : String}

theorem afterMacro?_eq_none (h : Text.occursIn token.toList reference = false) : afterMacro? token reference = none := by
  rw [afterMacro?, Text.splitAtFirst?_eq_none h, Option.map_none]

/-- What follows a macro that a reference begins with. -/
theorem afterMacro?_append (h : token ≠ "") (rest : List Char) : afterMacro? token (token.toList ++ rest) = some rest := by
  rw [afterMacro?, Text.splitAtFirst?_append (mt String.toList_eq_nil_iff.1 h), Option.map_some]

/-- What follows the first occurrence of a macro. -/
theorem afterMacro?_eq_some_iff (h : token ≠ "") :
    afterMacro? token reference = some rest ↔ ∃ before, reference = before ++ (token.toList ++ rest) ∧
      ∀ earlier later, reference = earlier ++ (token.toList ++ later) → before.length ≤ earlier.length := by
  have htoken : token.toList ≠ [] := mt String.toList_eq_nil_iff.1 h
  rw [afterMacro?, Option.map_eq_some_iff]
  constructor
  · rintro ⟨⟨before, after⟩, hsplit, rfl⟩
    exact ⟨before, (Text.splitAtFirst?_eq_some_iff htoken).1 hsplit⟩
  · rintro ⟨before, hfirst⟩
    exact ⟨(before, rest), (Text.splitAtFirst?_eq_some_iff htoken).2 hfirst, rfl⟩

/-- Without the multi-store macro a reference stands for itself. -/
theorem candidates_eq_singleton (h : Text.occursIn resolver.layout.multiStoreToken.toList reference = false) :
    resolver.candidates reference = [reference] := by
  rw [candidates, afterMacro?_eq_none h]

/-- With the multi-store macro it stands for one reference in each storefront variant. -/
theorem candidates_eq_map (h : afterMacro? resolver.layout.multiStoreToken reference = some rest) :
    resolver.candidates reference = resolver.layout.storeVariants.map fun variant => variant.toList ++ '/' :: rest := by
  rw [candidates, h]

/-- A reference with a cross-store marker lies below the content root. -/
theorem anchor_of_namesStore (h : resolver.layout.namesStore reference = true) :
    resolver.anchor reference = .contentRoot (withoutAscent reference) := by
  rw [anchor, if_pos h]

/-- A reference with the store macro lies below the store of the page, if it holds neither a cross-store marker nor the
style macro. -/
theorem anchor_of_storeMacro (hmarker : resolver.layout.namesStore reference = false)
    (hstyle : Text.occursIn resolver.layout.styleDirToken.toList reference = false)
    (hstore : afterMacro? resolver.layout.storeDirToken reference = some rest) :
    resolver.anchor reference = .storeDir rest := by
  rw [anchor, hmarker, if_neg Bool.false_ne_true, afterMacro?_eq_none hstyle, hstore]

/-- A reference without macros and without a separator in front of it lies below the directory of the page. -/
theorem anchor_of_relative (hmarker : resolver.layout.namesStore reference = false)
    (hstyle : Text.occursIn resolver.layout.styleDirToken.toList reference = false)
    (hstore : Text.occursIn resolver.layout.storeDirToken.toList reference = false)
    (hrooted : PagePath.isRooted reference = false) : resolver.anchor reference = .pageDir reference := by
  rw [anchor, hmarker, if_neg Bool.false_ne_true, afterMacro?_eq_none hstyle, afterMacro?_eq_none hstore, hrooted]
  exact if_neg Bool.false_ne_true

end PageGraph.Resolver
