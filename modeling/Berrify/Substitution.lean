import Berrify.Text.Search

/-!
# Substitutions in the source text

Before a script is read, a list of substitutions is applied to its text, one after the other and
without regard to word boundaries. `Substitutions.builtin` turns the spellings of literals and a
few library names into those of the target; `Substitutions.extend` adds configured ones behind them,
and `Substitutions.apply` applies them.
-/

namespace Berrify

/-- A text and what is put for it. -/
structure Substitution where
  pattern : String
  value : String
deriving DecidableEq, Repr

/-- Substitutions in the order in which they are applied. -/
abbrev Substitutions := List Substitution

namespace Substitutions

/-- The substitutions that always apply. -/
def builtin : Substitutions :=
  [⟨"json.loads", "json.load"⟩, ⟨"float", "real"⟩, ⟨"None", "nil"⟩, ⟨"True", "true"⟩,
   ⟨"False", "false"⟩]

/-- Adds substitutions that are applied last; one with an empty pattern is left out. -/
def extend (subs extra : Substitutions) : Substitutions :=
  subs ++ extra.filter (fun s => !s.pattern.isEmpty)

/-- Applies substitutions in order, each to the result of the one before. -/
def apply (subs : Substitutions) (text : String) : String :=
  subs.foldl (fun acc s => Text.replaceAll s.pattern s.value acc) text

end Substitutions

end Berrify
