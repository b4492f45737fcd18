import Berrify.Failure
import Berrify.Script
import Berrify.Stmt.Emit
import Berrify.Substitution

/-!
# The translator

A `Translator` is all that a run depends on besides the source : the substitutions, the style of the
output and the extension of output files. `Translator.run` substitutes, reads and emits.
-/

namespace Berrify

/-- How scripts are turned into scripts of the target. -/
structure Translator where
  substitutions : Substitutions := .builtin
  style : Style := {}
  /-- The extension of output files, without the dot. -/
  extension : String := "be"

instance : Inhabited Translator := ⟨{}⟩

/-- The target script of a source text. -/
def Translator.run (t : Translator) (source : String) : Except Failure String :=
  match Script.read? (t.substitutions.apply source) with
  | none => .error .unreadable
  | some script => (emitScript t.style script).mapError .refused

end Berrify
