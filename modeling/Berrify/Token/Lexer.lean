import Berrify.Literal.Integer
import Berrify.Text.Identifier
import Berrify.Token.Gap
import Berrify.Token.Quotation

/-!
# From text to tokens

`Token.lex` splits a script into tokens. Where several tokens fit, the longest is taken. Strings
that embed expressions hold tokens in turn, so the lexer keeps a stack of `Mode`s : what it is
inside of. `Cursor.step` reads the next tokens, and after a character that starts none the list ends
with a token of kind `stray`.
-/

namespace Berrify

/-! ## Numbers -/

/-- The length of an exponent at the front of a text, zero if there is none. -/
def exponentLength (cs : List Char) : Nat :=
  match cs with
  | e :: rest =>
    if e = 'e' ∨ e = 'E' then
      let sign := match rest with
        | s :: _ => if s = '+' ∨ s = '-' then 1 else 0
        | [] => 0
      let digits := (IntLiteral.scanBody 10 false false (rest.drop sign)).length
      if digits = 0 then 0 else 1 + sign + digits
    else 0
  | [] => 0

/-- The length of the longest fractional number at the front of a text, zero if there is none. -/
def floatLength (cs : List Char) : Nat :=
  let whole := (IntLiteral.scanBody 10 false false cs).length
  let behind := cs.drop whole
  let length := match behind with
    | '.' :: rest =>
      let fraction := (IntLiteral.scanBody 10 false false rest).length
      if whole = 0 ∧ fraction = 0 then 0
      else whole + 1 + fraction + exponentLength (rest.drop fraction)
    | _ =>
      let exponent := exponentLength behind
      if whole = 0 ∨ exponent = 0 then 0 else whole + exponent
  if length = 0 then 0
  else match cs.drop length with
    | c :: _ => if c = 'j' ∨ c = 'J' then length + 1 else length
    | [] => length

/-! ## Modes -/

/-- How far an embedded expression has been read : whether a name alone may still be bound in it. -/
inductive FieldPlace where
  | start
  | afterName
  | later
deriving DecidableEq, Repr

/-- What the lexer is inside of. -/
inductive Mode where
  | bracket
  /-- The text of a string. -/
  | text (d : Delimiter)
  /-- An expression embedded in a string, with the number of `lambda`s whose colon is still
  to come. -/
  | field (lambdas : Nat) (place : FieldPlace)
  /-- The format of an embedded expression. -/
  | format

/-- The place of the lexer in a script. -/
structure Cursor where
  rest : List Char
  line : Nat := 1
  /-- What the lexer is inside of, from the inside out. -/
  modes : List Mode := []

/-- Operators and punctuation, longer ones before those they start with. -/
def symbols : List String :=
  ["**=", "//=", ">>=", "<<=", "...", "**", "//", ">>", "<<", "<=", ">=", "==", "!=", "<>", "->",
   ":=", "+=", "-=", "*=", "/=", "%=", "@=", "&=", "|=", "^=", "+", "-", "*", "/", "%", "@", "&",
   "|", "^", "~", "<", ">", "=", "(", ")", "[", "]", "\x7b", "\x7d", ",", ":", ";", "."]

/-- A token without its gap, and the modes behind it. -/
structure Lexeme where
  kind : TokenKind
  length : Nat
  modes : List Mode

/-- The modes after a word. -/
def modesAfterWord (word : List Char) : List Mode → List Mode
  | .field lambdas place :: outer =>
    if word = ['l', 'a', 'm', 'b', 'd', 'a'] then .field (lambdas + 1) .later :: outer
    else .field lambdas (if place = .start then .afterName else .later) :: outer
  | modes => modes

/-- The modes after a token that is neither a word nor a symbol. -/
def modesAfterOther : List Mode → List Mode
  | .field lambdas _ :: outer => .field lambdas .later :: outer
  | modes => modes

/-- A symbol as a token : brackets nest, and in an embedded expression a brace or a colon may end
the expression. -/
def symbolLexeme (modes : List Mode) (symbol : String) : Lexeme :=
  let plain : Lexeme := ⟨.symbol, symbol.length, modesAfterOther modes⟩
  if symbol = "(" ∨ symbol = "[" ∨ symbol = "\x7b" then
    { plain with modes := .bracket :: plain.modes }
  else match modes with
  | .bracket :: outer =>
    if symbol = ")" ∨ symbol = "]" ∨ symbol = "\x7d" then { plain with modes := outer } else plain
  | .field 0 place :: outer =>
    if symbol = "\x7d" then ⟨.fieldClose, 1, outer⟩
    else if symbol = ":" ∨ (symbol = ":=" ∧ place ≠ .afterName) then
      ⟨.symbol, 1, .format :: .field 0 .later :: outer⟩
    else plain
  | .field (lambdas + 1) _ :: outer =>
    if symbol = ":" then { plain with modes := .field lambdas .later :: outer } else plain
  | _ => plain

/-- Whether a character is a lower-case letter of ASCII. -/
def isLowerLetter (c : Char) : Bool := 'a' ≤ c && c ≤ 'z'

/-- The token at the front of a text, outside the text of strings. -/
def lexeme? (modes : List Mode) (cs : List Char) : Option Lexeme :=
  match Delimiter.scan? cs with
  | some (d, length) => some ⟨.stringOpen, length, .text d :: modesAfterOther modes⟩
  | none =>
    match cs with
    | [] => none
    | c :: rest =>
      if Text.Identifier.isNameStart c then
        let word := c :: rest.takeWhile Text.Identifier.isNamePart
        some ⟨.word, word.length, modesAfterWord word modes⟩
      else
        let integer := match IntLiteral.scan? cs with
          | some (n, _) => n.text.length
          | none => 0
        let float := floatLength cs
        if integer < float then some ⟨.float, float, modesAfterOther modes⟩
        else if 0 < integer then some ⟨.integer, integer, modesAfterOther modes⟩
        else match symbols.find? (fun s => s.toList.isPrefixOf cs) with
          | some symbol => some (symbolLexeme modes symbol)
          | none =>
            match modes, rest with
            | .field .. :: _, letter :: _ =>
              if c = '!' ∧ isLowerLetter letter then some ⟨.conversion, 2, modes⟩ else none
            | _, _ => none

/-! ## Steps -/

/-- The line behind a text that starts on a line. -/
def lineAfter (line : Nat) (text : List Char) : Nat :=
  line + text.count '\n'

namespace Cursor

/-- The next token outside the text of strings. -/
def codeStep (s : Cursor) : List Token × Option Cursor :=
  let (gap, cs) := Gap.ofText s.line s.rest
  if cs.isEmpty then ([gap.token .stop []], none)
  else match lexeme? s.modes cs with
    | none => ([gap.token .stray cs], none)
    | some lexeme =>
      let text := cs.take lexeme.length
      ([gap.token lexeme.kind text],
        some ⟨cs.drop lexeme.length, lineAfter gap.line text, lexeme.modes⟩)

/-- The text of a string up to its end or to an embedded expression, and the token that ends it. -/
def textStep (s : Cursor) (d : Delimiter) (outer : List Mode) : List Token × Option Cursor :=
  match d.scanText? s.rest with
  | none => ([{ kind := .stray, text := "", line := s.line }], none)
  | some passage =>
    let line := lineAfter s.line passage.text
    let text : List Token := if passage.text.isEmpty then []
      else [{ kind := .stringText, text := String.ofList passage.text, line := s.line }]
    let stop : Token :=
      { kind := if passage.closed then .stringClose else .fieldOpen
        text := String.ofList passage.stop, line }
    let modes := if passage.closed then outer else .field 0 .start :: .text d :: outer
    (text ++ [stop], some ⟨passage.rest, lineAfter line passage.stop, modes⟩)

/-- The next token of a format : text, a brace, or nothing for a line end. -/
def formatStep (s : Cursor) (outer : List Mode) : List Token × Option Cursor :=
  match s.rest with
  | [] => ([{ kind := .stray, text := "", line := s.line }], none)
  | c :: rest =>
    if c = '\n' then ([], some ⟨rest, s.line + 1, .format :: outer⟩)
    else if c = '\x7b' then
      ([{ kind := .fieldOpen, text := "\x7b", line := s.line }],
        some ⟨rest, s.line, .field 0 .start :: .format :: outer⟩)
    else if c = '\x7d' then
      ([{ kind := .fieldClose, text := "\x7d", line := s.line }],
        some ⟨rest, s.line, outer.drop 1⟩)
    else
      let text := s.rest.takeWhile fun x => x != '\x7b' && x != '\x7d' && x != '\n'
      ([{ kind := .formatText, text := String.ofList text, line := s.line }],
        some ⟨s.rest.drop text.length, s.line, .format :: outer⟩)

/-- The next tokens. -/
def step (s : Cursor) : List Token × Option Cursor :=
  match s.modes with
  | .text d :: outer => s.textStep d outer
  | .format :: outer => s.formatStep outer
  | _ => s.codeStep

/-- The tokens of at most `fuel` steps. -/
def run : Nat → Cursor → List Token
  | 0, _ => []
  | fuel + 1, s =>
    match s.step with
    | (tokens, some next) => tokens ++ run fuel next
    | (tokens, none) => tokens

end Cursor

/-- The tokens of a script. Each step but the last takes a character, which bounds their number. -/
def Token.lex (source : String) : List Token :=
  Cursor.run (source.toList.length + 1) { rest := source.toList }

end Berrify
