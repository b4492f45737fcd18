import Berrify.Concrete.Lower
import Berrify.Concrete.Statements
import Berrify.Token.Lexer

/-!
# Reading scripts

`Script.read?` reads the source text of a script into abstract syntax : text to tokens, tokens to a
concrete tree, and the tree to a block of statements.
-/

namespace Berrify.Script

/-- The statements of a script; none if the text follows no rule of the grammar. -/
def read? (source : String) : Option Block :=
  (Concrete.ofTokens? (Token.lex source)).map Concrete.lowerBlock

end Berrify.Script
