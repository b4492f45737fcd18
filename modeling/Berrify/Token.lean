/-!
# Tokens

A script is read as a list of `Token`s. Each carries the gap in front of it : the blanks and
comments it is set off by (`Token.lead`), the line continuations among them, and, if a line ends
there, the depth to which the next line is indented (`Token.lineBreak`). Layout is thus a matter of
single tokens, and whether a line end counts is left to the grammar.
-/

namespace Berrify

/-- The sorts of tokens. -/
inductive TokenKind where
  /-- A name or a keyword. -/
  | word
  | integer
  | float
  /-- An operator or a mark of punctuation. -/
  | symbol
  /-- The start of a string literal : its letters and its quotes. -/
  | stringOpen
  /-- Literal text inside a string. -/
  | stringText
  | stringClose
  /-- The brace that opens an embedded expression. -/
  | fieldOpen
  | fieldClose
  /-- Text of the format that an embedded expression is written in. -/
  | formatText
  /-- The conversion of an embedded expression, such as `!r`. -/
  | conversion
  /-- The end of the script. -/
  | stop
  /-- Characters that start no token. -/
  | stray
deriving DecidableEq, Repr

/-- A backslash at the end of a line. -/
structure Continuation where
  line : Nat
  text : String
deriving DecidableEq, Repr

/-- A token and the gap in front of it. -/
structure Token where
  kind : TokenKind
  text : String
  /-- The line on which the token starts, counted from one. -/
  line : Nat
  /-- All that stands between the token before and this one. -/
  lead : String := ""
  continuations : List Continuation := []
  /-- The indentation of the line that begins in the gap, if one does. -/
  lineBreak : Option Nat := none
deriving DecidableEq, Repr

namespace Token

/-- Whether a token is the given word. -/
def isWord (t : Token) (text : String) : Bool :=
  t.kind == .word && t.text == text

/-- Whether a token is the given symbol. -/
def isSymbol (t : Token) (text : String) : Bool :=
  t.kind == .symbol && t.text == text

/-- The source text from the first of some tokens to the last. -/
def spanText : List Token → String
  | [] => ""
  | t :: rest => rest.foldl (fun acc u => acc ++ u.lead ++ u.text) t.text

end Token

end Berrify
