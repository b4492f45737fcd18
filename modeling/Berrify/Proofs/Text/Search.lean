import Berrify.Text.Search
import Mathlib.Data.List.Infix

/-!
# Texts inside of texts

A pattern occurs in a text if the text is the pattern with something in front of it and something
behind it (`occursIn_iff`).
-/

namespace Berrify.Text

theorem occursInChars_iff {pattern text : List Char} :
    occursInChars pattern text = true ↔ pattern <:+: text := by
  induction text with
  | nil => simp [occursInChars]
  | cons c rest ih =>
    rw [occursInChars, Bool.or_eq_true, List.isPrefixOf_iff_prefix, ih, List.infix_cons_iff]

theorem occursIn_iff {pattern text : String} :
    occursIn pattern text = true ↔ pattern.toList <:+: text.toList :=
  occursInChars_iff

theorem occursIn_eq_false_iff {pattern text : String} :
    occursIn pattern text = false ↔ ¬pattern.toList <:+: text.toList := by
  rw [← occursIn_iff, Bool.not_eq_true]

end Berrify.Text
