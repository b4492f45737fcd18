import Berrify.Text.Escape
import Mathlib.Data.List.Chain
import Mathlib.Data.List.TakeWhile
import Mathlib.Data.Nat.Digits.Defs
import Mathlib.Tactic.SplitIfs

/-!
# Literals made of tokens

The inside of a string literal is a sequence of `Token`s : characters, escapes of one letter,
escapes with hexadecimal or octal digits, broken lines, and backslashes that start no escape.
`Token.spelling` is how a token is written and `Token.bytes` what it stands for, in text or in a
byte string.

A token is read as it was written, whatever stands behind it (`unitsFrom_spelling`), but for octal
escapes that could have more digits : these may not be followed by an octal digit (`Token.Ends`). So
a literal that is spelled by tokens denotes what its tokens stand for, one after the other
(`decode_spelling`).
-/

namespace Berrify.Text.Escape

/-- Characters in UTF-8. -/
def utf8 (text : List Char) : List UInt8 :=
  text.flatMap String.utf8EncodeChar

/-- The bytes that the inside of a literal denotes : those of its text in UTF-8, or its own. -/
def decode : Reading → List Char → List UInt8
  | .text, literal => utf8 (decodeText literal)
  | .bytes, literal => decodeBytes literal

/-! ## Digits -/

/-- A digit of a base up to sixteen, as it is written. -/
structure Digit (base : ℕ) where
  value : Fin base
  capital : Bool
deriving DecidableEq, Repr

/-- The character of a digit. -/
def Digit.char {base : ℕ} (d : Digit base) : Char :=
  if d.capital then hexDigitUpper d.value else hexDigit d.value

/-- How digits are written. -/
def spelled {base : ℕ} (digits : List (Digit base)) : List Char :=
  digits.map Digit.char

/-- The number that digits denote, the leading one first. -/
def number {base : ℕ} (digits : List (Digit base)) : ℕ :=
  Nat.ofDigits base (digits.reverse.map fun d => d.value.val)

theorem number_cons {base : ℕ} (d : Digit base) (digits : List (Digit base)) :
    number (d :: digits) = d.value * base ^ digits.length + number digits := by
  rw [number, List.reverse_cons, List.map_append, Nat.ofDigits_append, List.length_map,
    List.length_reverse, List.map_singleton, Nat.ofDigits_singleton, number, Nat.mul_comm,
    Nat.add_comm]

section

variable {base : ℕ} (hbase : base ≤ 16)
include hbase

theorem digitValue?_char (d : Digit base) : digitValue? base d.char = some d.value.val := by
  have wide : ∀ (value : Fin 16) (capital : Bool),
      digitValue? 16 (Digit.char ⟨value, capital⟩) = some value.val := by
    decide
  have narrow (c : Char) : digitValue? base c = (digitValue? 16 c).filter (· < base) := by
    rw [digitValue?, digitValue?, Option.filter_filter]
    congr 1
    funext value
    rw [Bool.eq_iff_iff, Bool.and_eq_true, decide_eq_true_eq, decide_eq_true_eq]
    omega
  have value := wide ⟨d.value.val, d.value.isLt.trans_le hbase⟩ d.capital
  rw [narrow]
  exact (congrArg (Option.filter (· < base)) value).trans (by simp)

theorem char_ne (d : Digit base) {c : Char} (hc : digitValue? base c = none) : d.char ≠ c := by
  rintro rfl
  rw [digitValue?_char hbase] at hc
  cases hc

theorem ne_of_mem_spelled {digits : List (Digit base)} {c d : Char}
    (hd : d ∈ spelled digits) (hc : digitValue? base c = none) : d ≠ c := by
  obtain ⟨digit, -, rfl⟩ := List.mem_map.1 hd
  exact char_ne hbase digit hc

theorem readDigitsFrom?_spelled (digits : List (Digit base)) (acc : ℕ) :
    readDigitsFrom? base acc (spelled digits) =
      some (acc * base ^ digits.length + number digits) := by
  induction digits generalizing acc with
  | nil => simp [spelled, number, readDigitsFrom?]
  | cons d digits ih =>
    have shifted : (acc * base + d.value) * base ^ digits.length + number digits =
        acc * base ^ (digits.length + 1) + number (d :: digits) := by
      rw [number_cons]
      ring
    rw [spelled, List.map_cons, readDigitsFrom?, digitValue?_char hbase]
    exact (ih _).trans (congrArg some shifted)

/-- Digits are read as the number that they denote. -/
theorem readDigits?_spelled {digits : List (Digit base)} (hne : digits ≠ []) :
    readDigits? base (spelled digits) = some (number digits) := by
  have given : (spelled digits).isEmpty = false := by
    simpa [spelled] using hne
  rw [readDigits?, given, if_neg Bool.false_ne_true, readDigitsFrom?_spelled hbase, Nat.zero_mul,
    Nat.zero_add]

end

/-- Digits have no sign in front, so they are read in the same way where a sign may stand. -/
theorem readUnsigned?_spelled {digits : List (Digit 16)} (hne : digits ≠ []) :
    readUnsigned? 16 (spelled digits) = some (number digits) := by
  have unsigned : ∀ rest, spelled digits ≠ '+' :: rest := by
    intro rest h
    have sign : '+' ∈ spelled digits := by simp [h]
    exact ne_of_mem_spelled (Nat.le_refl 16) sign (by decide) rfl
  rw [readUnsigned?, readDigits?_spelled (Nat.le_refl 16) hne]
  exact unsigned

/-! ## Tokens -/

/-- The letters of the escapes that stand for one character, with that character. -/
def namedEscapes : List (Char × Char) :=
  [('n', '\n'), ('t', '\t'), ('r', '\r'), ('a', '\x07'), ('b', '\x08'), ('f', '\x0c'),
    ('v', '\x0b'), ('\\', '\\'), ('\x27', '\x27'), ('\x22', '\x22')]

/-- The characters that make an escape of a backslash in front of them. -/
def escapeStarts : List Char :=
  namedEscapes.map Prod.fst ++
    ['\n', 'x', 'u', 'U', '0', '1', '2', '3', '4', '5', '6', '7']

/-- The escapes with hexadecimal digits. -/
inductive HexForm where
  | byte
  | short
  | long
deriving DecidableEq, Repr

/-- The letter of a hexadecimal escape. -/
def HexForm.letter : HexForm → Char
  | byte => 'x'
  | short => 'u'
  | long => 'U'

/-- The number of its digits. -/
def HexForm.width : HexForm → ℕ
  | byte => 2
  | short => 4
  | long => 8

/-- Whether a hexadecimal escape exists : byte strings have the shortest one only. -/
def HexForm.isKnown : Reading → HexForm → Bool
  | .bytes, short => false
  | .bytes, long => false
  | _, _ => true

/-- What a number stands for : a code point in text, its low byte in a byte string. -/
def numberBytes : Reading → ℕ → List UInt8
  | .text, code => String.utf8EncodeChar (scalar code)
  | .bytes, value => [UInt8.ofNat value]

/-- What the inside of a string literal is made of. -/
inductive Token where
  /-- A character that stands for itself. -/
  | plain (c : Char) (ordinary : c ≠ '\\')
  /-- An escape of one letter. -/
  | named (letter meaning : Char) (listed : (letter, meaning) ∈ namedEscapes)
  | hex (form : HexForm) (digits : List (Digit 16)) (complete : digits.length = form.width)
  | octal (digits : List (Digit 8)) (given : digits ≠ []) (few : digits.length ≤ 3)
  /-- A backslash at the end of a line. -/
  | lineBreak
  /-- A backslash in front of a character with which it is no escape. -/
  | unknown (c : Char) (unlisted : c ∉ escapeStarts)

namespace Token

/-- How a token is written. -/
def spelling : Token → List Char
  | plain c _ => [c]
  | named letter _ _ => ['\\', letter]
  | hex form digits _ => '\\' :: form.letter :: spelled digits
  | octal digits _ _ => '\\' :: spelled digits
  | lineBreak => ['\\', '\n']
  | unknown c _ => ['\\', c]

/-- The bytes that a token stands for. -/
def bytes (reading : Reading) : Token → List UInt8
  | plain c _ => utf8 [c]
  | named _ meaning _ => utf8 [meaning]
  | hex form digits _ =>
    if form.isKnown reading then numberBytes reading (number digits)
    else utf8 ('\\' :: form.letter :: spelled digits)
  | octal digits _ _ => numberBytes reading (number digits)
  | lineBreak => []
  | unknown c _ => utf8 ['\\', c]

/-- Whether a token ends in front of a text : an octal escape that could have more digits ends in
front of anything but an octal digit. -/
def Ends : Token → List Char → Prop
  | octal digits _ _, rest => digits.length < 3 → ∀ c ∈ rest.head?, isDigitOf 8 c = false
  | _, _ => True

/-- Whether a token ends in front of another one. -/
def EndsBefore (t next : Token) : Prop :=
  t.Ends next.spelling

/-- What a token is read as. -/
def units (reading : Reading) : Token → List Unit
  | plain c _ => [.char c]
  | named _ meaning _ => [.char meaning]
  | hex form digits _ =>
    if form.isKnown reading then [.code (number digits)]
    else ('\\' :: form.letter :: spelled digits).map .char
  | octal digits _ _ => [.code (number digits)]
  | lineBreak => []
  | unknown c _ => [.char '\\', .char c]

end Token

/-! ## Escapes -/

theorem escapeAt_named (reading : Reading) {letter meaning : Char}
    (h : (letter, meaning) ∈ namedEscapes) (rest : List Char) :
    escapeAt reading (letter :: rest) = ([.char meaning], 1) := by
  have table : ∀ e ∈ namedEscapes, e.1 ≠ '\n' ∧ simple? e.1 = some e.2 := by
    decide
  obtain ⟨hline, hsimple⟩ := table _ h
  rw [escapeAt, if_neg hline, hsimple]

theorem escapeAt_hex {reading : Reading} {form : HexForm} (hform : form.isKnown reading = true)
    {digits : List (Digit 16)} (hlength : digits.length = form.width) (rest : List Char) :
    escapeAt reading (form.letter :: (spelled digits ++ rest)) =
      ([.code (number digits)], 1 + form.width) := by
  have letter : form.letter ≠ '\n' ∧ simple? form.letter = none := by
    cases form <;> decide
  have letterWidth : hexWidth? reading form.letter = some form.width := by
    cases reading <;> cases form <;> first | rfl | cases hform
  have given : digits ≠ [] := by
    rintro rfl
    cases form <;> cases hlength
  have width : (spelled digits).length = form.width := by
    rw [spelled, List.length_map, hlength]
  have taken : (spelled digits ++ rest).take form.width = spelled digits := by
    rw [← width, List.take_left]
  simp only [escapeAt, if_neg letter.1, letter.2, letterWidth, taken, width, hexUnits,
    readUnsigned?_spelled given]

/-- At most three octal digits are taken, and all that are there. -/
theorem octalDigits_spelled {digits : List (Digit 8)} (hfew : digits.length ≤ 3) {rest : List Char}
    (hrest : digits.length < 3 → ∀ c ∈ rest.head?, isDigitOf 8 c = false) :
    octalDigits (spelled digits ++ rest) = spelled digits := by
  have octal : ∀ c ∈ spelled digits, isDigitOf 8 c = true := by
    intro c hc
    obtain ⟨d, -, rfl⟩ := List.mem_map.1 hc
    rw [isDigitOf, digitValue?_char (by decide), Option.isSome_some]
  have stops : (rest.take (3 - digits.length)).takeWhile (isDigitOf 8) = [] := by
    rcases Nat.lt_or_ge digits.length 3 with hlt | hge
    · cases rest with
      | nil => simp
      | cons c more =>
        obtain ⟨n, hn⟩ : ∃ n, 3 - digits.length = n + 1 := ⟨2 - digits.length, by omega⟩
        rw [hn, List.take_succ_cons, List.takeWhile_cons_of_neg]
        simp [hrest hlt c rfl]
    · rw [Nat.sub_eq_zero_of_le hge, List.take_zero, List.takeWhile_nil]
  have length : (spelled digits).length = digits.length := List.length_map _
  rw [octalDigits, List.take_append, List.take_of_length_le (by omega), length,
    List.takeWhile_append_of_pos octal, stops, List.append_nil]

theorem escapeAt_octal (reading : Reading) {digits : List (Digit 8)} (hne : digits ≠ [])
    (hfew : digits.length ≤ 3) {rest : List Char}
    (hrest : digits.length < 3 → ∀ c ∈ rest.head?, isDigitOf 8 c = false) :
    escapeAt reading (spelled digits ++ rest) = ([.code (number digits)], digits.length) := by
  have noLetter : ∀ (value : Fin 8) (capital : Bool), (Digit.char ⟨value, capital⟩) ≠ '\n' ∧
      simple? (Digit.char ⟨value, capital⟩) = none ∧
      hexWidth? .text (Digit.char ⟨value, capital⟩) = none ∧
      hexWidth? .bytes (Digit.char ⟨value, capital⟩) = none := by
    decide
  have run := octalDigits_spelled hfew hrest
  obtain ⟨d, more, rfl⟩ := List.exists_cons_of_ne_nil hne
  obtain ⟨hline, hsimple, htext, hbytes⟩ := noLetter d.value d.capital
  have hwidth : hexWidth? reading d.char = none := by
    cases reading
    · exact htext
    · exact hbytes
  have front : spelled (d :: more) ++ rest = d.char :: (spelled more ++ rest) := rfl
  have length : (spelled (d :: more)).length = (d :: more).length := List.length_map _
  rw [front] at run ⊢
  simp only [escapeAt, if_neg hline, hsimple, hwidth, run, length,
    readDigits?_spelled (by decide : 8 ≤ 16) hne]

theorem simple?_eq_none {c : Char} (h : c ∉ escapeStarts) : simple? c = none := by
  unfold simple?
  split <;> first | rfl | exact absurd (by decide) h

theorem hexWidth?_eq_none (reading : Reading) {c : Char} (h : c ∉ escapeStarts) :
    hexWidth? reading c = none := by
  unfold hexWidth?
  split <;> first | rfl | exact absurd (by decide) h

theorem not_isDigitOf_eight {c : Char} (h : c ∉ escapeStarts) : isDigitOf 8 c = false := by
  have starts : ∀ code < 8, Char.ofNat (48 + code) ∈ escapeStarts := by
    decide
  have digit (hlow : '0' ≤ c) : ¬c.toNat - '0'.toNat < 8 := by
    intro hlt
    have low : 48 ≤ c.toNat := hlow
    have code : 48 + (c.toNat - 48) = c.toNat := by omega
    have start := starts (c.toNat - 48) hlt
    rw [code, Char.ofNat_toNat] at start
    exact h start
  rw [isDigitOf, digitValue?]
  split_ifs with decimal
  · rw [Option.filter_some, if_neg (by simpa using digit decimal.1), Option.isSome_none]
  · rw [Option.filter_some, if_neg (by simp), Option.isSome_none]
  · rw [Option.filter_some, if_neg (by simp), Option.isSome_none]
  · rfl

theorem escapeAt_unknown (reading : Reading) {c : Char} (h : c ∉ escapeStarts)
    (rest : List Char) : escapeAt reading (c :: rest) = ([.char '\\', .char c], 1) := by
  have hline : c ≠ '\n' := by
    rintro rfl
    exact h (by decide)
  have run : octalDigits (c :: rest) = [] := by
    rw [octalDigits, List.take_succ_cons, List.takeWhile_cons_of_neg]
    simp [not_isDigitOf_eight h]
  simp only [escapeAt, if_neg hline, simple?_eq_none h, hexWidth?_eq_none reading h, run]
  rfl

theorem escapeAt_of_not_isKnown {reading : Reading} {form : HexForm}
    (hform : form.isKnown reading = false) (rest : List Char) :
    escapeAt reading (form.letter :: rest) = ([.char '\\', .char form.letter], 1) := by
  cases reading <;> cases form <;> first | rfl | cases hform

/-! ## Reading -/

/-- The characters of an escape that has been read are passed over. -/
theorem unitsFrom_append (reading : Reading) (taken rest : List Char) :
    unitsFrom reading taken.length (taken ++ rest) = unitsFrom reading 0 rest := by
  induction taken with
  | nil => rfl
  | cons c taken ih => exact ih

theorem unitsFrom_escape {reading : Reading} (taken : List Char) {rest : List Char}
    {read : List Unit} (h : escapeAt reading (taken ++ rest) = (read, taken.length)) :
    unitsFrom reading 0 ('\\' :: (taken ++ rest)) = read ++ unitsFrom reading 0 rest := by
  rw [unitsFrom, if_pos rfl, h]
  exact congrArg (read ++ ·) (unitsFrom_append reading taken rest)

theorem unitsFrom_plain (reading : Reading) {text : List Char} (h : ∀ c ∈ text, c ≠ '\\')
    (rest : List Char) :
    unitsFrom reading 0 (text ++ rest) = text.map .char ++ unitsFrom reading 0 rest := by
  induction text with
  | nil => rfl
  | cons c text ih =>
    obtain ⟨first, others⟩ := List.forall_mem_cons.1 h
    rw [List.cons_append, unitsFrom, if_neg first, ih others, List.map_cons, List.cons_append]

/-- A token is read as it was written, in front of anything in front of which it ends. -/
theorem unitsFrom_spelling (reading : Reading) {t : Token} {rest : List Char} (h : t.Ends rest) :
    unitsFrom reading 0 (t.spelling ++ rest) = t.units reading ++ unitsFrom reading 0 rest := by
  cases t with
  | plain c ordinary =>
    exact unitsFrom_plain reading (by simpa [Token.spelling] using ordinary) rest
  | named letter meaning listed =>
    exact unitsFrom_escape [letter] (escapeAt_named reading listed rest)
  | hex form digits complete =>
    have length : (spelled digits).length = form.width := by
      rw [spelled, List.length_map, complete]
    rw [Token.units, Token.spelling]
    cases known : form.isKnown reading with
    | true =>
      refine unitsFrom_escape (form.letter :: spelled digits) ?_
      rw [List.cons_append, escapeAt_hex known complete, List.length_cons, length, if_pos rfl,
        Nat.add_comm]
    | false =>
      -- Only the backslash and the letter make an escape here; the digits are characters behind it.
      have noBackslash : ∀ c ∈ spelled digits, c ≠ '\\' := fun c hc =>
        ne_of_mem_spelled (Nat.le_refl 16) hc (by decide)
      have digitsRead := unitsFrom_plain reading noBackslash rest
      have letterRead := unitsFrom_escape [form.letter]
        (escapeAt_of_not_isKnown known (spelled digits ++ rest))
      rw [if_neg Bool.false_ne_true, List.map_cons, List.map_cons]
      exact letterRead.trans (congrArg ([.char '\\', .char form.letter] ++ ·) digitsRead)
  | octal digits given few =>
    have length : (spelled digits).length = digits.length := List.length_map _
    refine unitsFrom_escape (spelled digits) ((escapeAt_octal reading given few h).trans ?_)
    rw [length, Token.units]
  | lineBreak => rfl
  | unknown c unlisted =>
    exact unitsFrom_escape [c] (escapeAt_unknown reading unlisted rest)

theorem Token.spelling_ne_nil (t : Token) : t.spelling ≠ [] := by
  cases t <;> exact List.cons_ne_nil _ _

/-- Whether a token ends shows in the first character behind it. -/
theorem Token.Ends.append {t : Token} {text : List Char} (h : t.Ends text) (hne : text ≠ [])
    (rest : List Char) : t.Ends (text ++ rest) := by
  obtain ⟨c, more, rfl⟩ := List.exists_cons_of_ne_nil hne
  cases t with
  | octal digits given few => exact h
  | _ => trivial

theorem Token.ends_nil (t : Token) : t.Ends [] := by
  cases t with
  | octal digits given few => exact fun _ _ hc => absurd hc (by simp)
  | _ => trivial

/-- Tokens are read one after the other, as they were written. -/
theorem units_spelling (reading : Reading) {tokens : List Token}
    (h : tokens.IsChain Token.EndsBefore) :
    units reading (tokens.flatMap Token.spelling) = tokens.flatMap (Token.units reading) := by
  induction tokens with
  | nil => rfl
  | cons t tokens ih =>
    obtain ⟨hnext, hchain⟩ := List.isChain_cons.1 h
    have ends : t.Ends (tokens.flatMap Token.spelling) := by
      cases tokens with
      | nil => exact t.ends_nil
      | cons next tokens => exact (hnext next rfl).append next.spelling_ne_nil _
    rw [List.flatMap_cons, units, unitsFrom_spelling reading ends, List.flatMap_cons]
    exact congrArg (t.units reading ++ ·) (ih hchain)

/-! ## Bytes -/

/-- The bytes of a unit. -/
def Unit.inReading : Reading → Unit → List UInt8
  | .text, u => String.utf8EncodeChar u.toChar
  | .bytes, u => u.toBytes

theorem decode_eq (reading : Reading) (literal : List Char) :
    decode reading literal = (units reading literal).flatMap (Unit.inReading reading) := by
  cases reading with
  | text =>
    rw [decode, decodeText, utf8, List.flatMap_map]
    rfl
  | bytes => rfl

theorem inReading_code (reading : Reading) (n : ℕ) :
    Unit.inReading reading (.code n) = numberBytes reading n := by
  cases reading <;> rfl

theorem flatMap_inReading_char (reading : Reading) (text : List Char) :
    (text.map Unit.char).flatMap (Unit.inReading reading) = utf8 text := by
  have char (c : Char) : Unit.inReading reading (.char c) = String.utf8EncodeChar c := by
    cases reading <;> rfl
  rw [List.flatMap_map, utf8]
  exact congrArg text.flatMap (funext char)

/-- What a token is read as are the bytes that it stands for. -/
theorem Token.flatMap_units (reading : Reading) (t : Token) :
    (t.units reading).flatMap (Unit.inReading reading) = t.bytes reading := by
  have number (n : ℕ) : [Unit.code n].flatMap (Unit.inReading reading) =
      numberBytes reading n := by
    rw [List.flatMap_singleton, inReading_code]
  cases t with
  | plain c _ => exact flatMap_inReading_char reading [c]
  | named _ meaning _ => exact flatMap_inReading_char reading [meaning]
  | hex form digits _ =>
    rw [Token.units, Token.bytes]
    split
    · exact number _
    · exact flatMap_inReading_char reading _
  | octal digits _ _ => exact number _
  | lineBreak => rfl
  | unknown c _ => exact flatMap_inReading_char reading ['\\', c]

/-- A literal denotes what its tokens stand for, one after the other. -/
theorem decode_spelling (reading : Reading) {tokens : List Token}
    (h : tokens.IsChain Token.EndsBefore) :
    decode reading (tokens.flatMap Token.spelling) = tokens.flatMap (Token.bytes reading) := by
  rw [decode_eq, units_spelling reading h, List.flatMap_assoc]
  exact congrArg tokens.flatMap (funext (Token.flatMap_units reading))

/-- `\18\ud8008\777`, a broken line and `\q` : in text an octal digit, a character, half a surrogate
pair, a character, a code point and a backslash with its letter. -/
theorem decode_spelling_digits :
    let tokens : List Token := [.octal [⟨1, false⟩] (by decide) (by decide), .plain '8' (by decide),
      .hex .short [⟨13, false⟩, ⟨8, false⟩, ⟨0, false⟩, ⟨0, false⟩] rfl, .plain '8' (by decide),
      .octal [⟨7, false⟩, ⟨7, false⟩, ⟨7, false⟩] (by decide) (by decide), .lineBreak,
      .unknown 'q' (by decide)]
    tokens.IsChain Token.EndsBefore ∧
      tokens.flatMap Token.spelling = "\\18\\ud8008\\777\\\n\\q".toList ∧
      decode .text "\\18\\ud8008\\777\\\n\\q".toList =
        [1, 56, 0xEF, 0xBF, 0xBD, 56, 0xC7, 0xBF, 92, 113] ∧
      decode .bytes "\\18\\ud8008\\777\\\n\\q".toList =
        [1, 56, 92, 117, 100, 56, 48, 48, 56, 0xFF, 92, 113] := by
  intro tokens
  have chain : tokens.IsChain Token.EndsBefore := by
    refine .cons_cons (fun _ c hc => ?_) (.cons_cons trivial (.cons_cons trivial
      (.cons_cons trivial (.cons_cons (fun few => absurd few (by decide))
        (.cons_cons trivial (.singleton _))))))
    cases hc
    decide
  have spelling : tokens.flatMap Token.spelling = "\\18\\ud8008\\777\\\n\\q".toList := by
    decide
  refine ⟨chain, spelling, ?_, ?_⟩
  · rw [← spelling, decode_spelling .text chain]
    decide
  · rw [← spelling, decode_spelling .bytes chain]
    decide

end Berrify.Text.Escape
