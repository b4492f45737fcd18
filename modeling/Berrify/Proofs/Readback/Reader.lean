import Berrify.Proofs.Expr.Writing
import Berrify.Proofs.Meaning.Source
import Berrify.Proofs.Text.Words

/-!
# Reading rendered text back

`read?` reads a text that an expression was rendered as, and gives the expression back. Unlike the
target language it knows no precedences : a rendered operand that is put together by operators
stands in parentheses, so an operand (`operand`) is a literal, a name, a list or something in
parentheses, with attributes, indices and calls behind it (`trailers`), or else a number with a
sign. A whole expression (`whole`) has an operator in front of one operand or operators between
operands. Texts are read character by character, since strings may hold anything.

`ReadsWhole`, `ReadsOperand` and `ReadsReceiver` say what a text is read as in front of what may
stand behind it there. There is one statement for each shape of expression (`ReadsReceiver.call`,
`ReadsWhole.binary` and so on).
-/

namespace Berrify.Readback

open Text Text.Identifier

/-- A reader takes something from the front of a text. -/
abbrev Reader (α : Type) := List Char → Option (α × List Char)

/-! ## Strings -/

/-- The character that an escape of one letter stands for. -/
def unescape : Char → Char
  | 'n' => '\n'
  | 'r' => '\r'
  | 't' => '\t'
  | c => c

/-- Reads a string behind its opening quote. -/
def unquote : Reader (List Char)
  | '\x27' :: rest => some ([], rest)
  | '\\' :: 'x' :: high :: low :: rest => do
    let code := 16 * (← digitValue? 16 high) + (← digitValue? 16 low)
    let (text, behind) ← unquote rest
    return (.ofNat code :: text, behind)
  | '\\' :: c :: rest => do
    let (text, behind) ← unquote rest
    return (unescape c :: text, behind)
  | c :: rest => do
    let (text, behind) ← unquote rest
    return (c :: text, behind)
  | [] => none

/-! ## Operands -/

/-- The name characters at the front of a text. -/
def word (text : List Char) : String :=
  .ofList (text.takeWhile isNamePart)

/-- The text behind the name characters at its front. -/
def behindWord (text : List Char) : List Char :=
  text.dropWhile isNamePart

/-- Reads expressions that each have a gap in front of them. The number bounds how many there
are. -/
def further (next : Reader Expr) (gap : List Char) : Nat → Reader (List Expr)
  | bound + 1, text =>
    match text.dropPrefix? gap with
    | some rest => do
      let (e, rest) ← next rest
      let (es, behind) ← further next gap bound rest
      return (e :: es, behind)
    | none => some ([], text)
  | 0, text => some ([], text)

/-- Reads expressions with commas between them, up to a closing bracket. -/
def items (inner : Reader Expr) (closing : Char) (text : List Char) :
    Option (List Expr × List Char) :=
  if text.head? = some closing then some ([], text.tail)
  else do
    let (first, rest) ← inner text
    let (more, rest) ← further inner ", ".toList rest.length rest
    if rest.head? = some closing then some (first :: more, rest.tail) else none

/-- Reads attributes, indices and calls. The number bounds how many there are. -/
def trailers (inner : Reader Expr) : Nat → Expr → Reader Expr
  | bound + 1, e, '.' :: rest => trailers inner bound (.attribute e (word rest)) (behindWord rest)
  | bound + 1, e, '[' :: rest =>
    match inner rest with
    | some (index, ']' :: behind) => trailers inner bound (.subscript e index) behind
    | _ => none
  | bound + 1, e, '(' :: rest => do
    let (args, behind) ← items inner ')' rest
    trailers inner bound (.call e args []) behind
  | _, e, text => some (e, text)

/-- Reads an integer without a sign. -/
def integer (text : List Char) : Expr × List Char :=
  (.constant (.int (word text)), behindWord text)

/-- Reads an operand. -/
def operand (inner : Reader Expr) : Reader Expr
  | '\x27' :: rest => do
    let (text, behind) ← unquote rest
    trailers inner behind.length (.constant (.str (.ofList text))) behind
  | '[' :: rest => do
    let (es, behind) ← items inner ']' rest
    trailers inner behind.length (.list es) behind
  | '(' :: rest =>
    match inner rest with
    | some (e, ')' :: behind) => trailers inner behind.length e behind
    | _ => none
  | '-' :: rest => some (.unary .neg (integer rest).1, behindWord rest)
  | '+' :: rest => some (.unary .pos (integer rest).1, behindWord rest)
  | text =>
    if text.head?.any Char.isDigit then some (integer text)
    else trailers inner (behindWord text).length (.name (word text)) (behindWord text)

/-! ## Expressions -/

/-- What stands between operands. -/
inductive Joint where
  | arithmetic (op : BinaryOp)
  | relation (op : Comparison)
  | connective (op : BooleanOp)
  | choice
deriving DecidableEq

/-- What a token between operands means. -/
def joint? (token : String) : Option Joint :=
  if token = "?" then some .choice
  else
    match [BooleanOp.and, BooleanOp.or].find? (·.target == token), BinaryOp.ofToken? token with
    | some op, _ => some (.connective op)
    | none, some op => some (.arithmetic op)
    | none, none => (Comparison.ofToken? token).map .relation

/-- Reads what stands behind the first operand and the token behind it. -/
def operation (next : Reader Expr) (left : Expr) : Joint → Reader Expr
  | .arithmetic op, text => do
    let (right, behind) ← next text
    return (.binary left op right, behind)
  | .relation op, text => do
    let (right, behind) ← next text
    return (.compare left [op] [right], behind)
  | .connective op, text => do
    let (second, rest) ← next text
    let (more, behind) ← further next (" " ++ op.target ++ " ").toList rest.length rest
    return (.boolean op (left :: second :: more), behind)
  | .choice, text =>
    match next text with
    | some (body, ' ' :: ':' :: ' ' :: rest) => do
      let (orelse, behind) ← next rest
      return (.conditional left body orelse, behind)
    | _ => none

/-- Reads what stands behind the first operand. -/
def continuation (next : Reader Expr) (left : Expr) : Reader Expr
  | ' ' :: rest => do
    let joint ← joint? (.ofList (rest.takeWhile (· != ' ')))
    operation next left joint (rest.dropWhile (· != ' ')).tail
  | text => some (left, text)

/-- The operator in front of an operand, if it is not the sign of a number. -/
def leading? : List Char → Option (UnaryOp × List Char)
  | '!' :: rest => some (.not, rest)
  | '~' :: rest => some (.invert, rest)
  | '-' :: rest => if rest.head?.any Char.isDigit then none else some (.neg, rest)
  | '+' :: rest => if rest.head?.any Char.isDigit then none else some (.pos, rest)
  | _ => none

/-- Reads an expression in which brackets are nested at most as deep as the number says. -/
def whole : Nat → Reader Expr
  | 0, _ => none
  | depth + 1, text =>
    match leading? text with
    | some (op, rest) => do
      let (e, behind) ← operand (whole depth) rest
      return (.unary op e, behind)
    | none => do
      let (left, rest) ← operand (whole depth) text
      continuation (operand (whole depth)) left rest

/-- Reads a whole text. -/
def read? (text : String) : Option Expr :=
  match whole (text.length + 1) text.toList with
  | some (e, []) => some e
  | _ => none

/-! ## Strings that were quoted -/

theorem digitValue?_hexDigit : ∀ value < 16, digitValue? 16 (hexDigit value) = some value := by
  decide

theorem unquote_quoteChar (c : Char) {rest text behind : List Char}
    (h : unquote rest = some (text, behind)) :
    unquote (quoteChar c ++ rest) = some (c :: text, behind) := by
  unfold quoteChar
  split_ifs with backslash quote newline feed tab control
  · simp [backslash, unquote, unescape, h]
  · simp [quote, unquote, unescape, h]
  · simp [newline, unquote, unescape, h]
  · simp [feed, unquote, unescape, h]
  · simp [tab, unquote, unescape, h]
  · have high := digitValue?_hexDigit (c.toNat / 16) (by omega)
    have low := digitValue?_hexDigit (c.toNat % 16) (by omega)
    simp [unquote, high, low, h, Nat.div_add_mod]
  · simp [unquote, h, backslash]

/-- What was quoted is read as it was. -/
theorem unquote_quoteBody (text rest : List Char) :
    unquote (quoteBody text ++ '\x27' :: rest) = some (text, rest) := by
  induction text with
  | nil => rfl
  | cons c text ih =>
    rw [quoteBody, List.flatMap_cons, List.append_assoc]
    exact unquote_quoteChar c ih

/-! ## What may stand behind a text -/

/-- A text that does not prolong an operand. -/
def Detached (rest : List Char) : Prop :=
  ∀ c ∈ rest.head?, isNamePart c = false ∧ c ≠ '.' ∧ c ≠ '[' ∧ c ≠ '('

/-- A text that ends an expression. -/
def Ends (rest : List Char) : Prop :=
  ∀ c ∈ rest.head?, c = ')' ∨ c = ']' ∨ c = ','

theorem Detached.apart {rest : List Char} (h : Detached rest) : Apart rest :=
  fun c hc => (h c hc).1

theorem Ends.detached {rest : List Char} (h : Ends rest) : Detached rest := by
  intro c hc
  rcases h c hc with rfl | rfl | rfl <;> decide

theorem detached_blank (rest : List Char) : Detached (' ' :: rest) := by
  intro c hc
  cases hc
  decide

theorem ends_nil : Ends [] := by
  simp [Ends]

theorem ends_parenthesis (rest : List Char) : Ends (')' :: rest) := by
  simp [Ends]

theorem ends_bracket (rest : List Char) : Ends (']' :: rest) := by
  simp [Ends]

theorem ends_comma (rest : List Char) : Ends (',' :: rest) := by
  simp [Ends]

variable {inner next : Reader Expr} {text : String} {e left : Expr} {rest : List Char}

theorem trailers_of_detached (h : Detached rest) (bound : Nat) :
    trailers inner bound e rest = some (e, rest) := by
  unfold trailers
  split
  · exact absurd rfl (h '.' rfl).2.1
  · exact absurd rfl (h '[' rfl).2.2.1
  · exact absurd rfl (h '(' rfl).2.2.2
  · rfl

theorem continuation_of_ends (h : Ends rest) : continuation next left rest = some (left, rest) := by
  unfold continuation
  split
  · exact absurd (h ' ' rfl) (by decide)
  · rfl

theorem word_append (h : ∀ c ∈ text.toList, isNamePart c = true) (hr : Apart rest) :
    word (text.toList ++ rest) = text := by
  rw [word, takeWhile_append_of_apart hr, List.takeWhile_eq_self_iff.2 h, String.ofList_toList]

theorem behindWord_append (h : ∀ c ∈ text.toList, isNamePart c = true) (hr : Apart rest) :
    behindWord (text.toList ++ rest) = rest :=
  dropWhile_append_of_apart hr h

/-! ## What a text is read as -/

/-- A text is read as a whole expression. -/
structure ReadsWhole (text : String) (e : Expr) : Prop where
  front : ∃ c, text.toList.head? = some c ∧ c ≠ ')' ∧ c ≠ ']'
  reads : ∀ depth rest, text.length < depth → Ends rest →
    whole depth (text.toList ++ rest) = some (e, rest)

/-- A text is read as an operand. Only a number starts with a digit. -/
structure ReadsOperand (text : String) (e : Expr) : Prop where
  front : ∃ c, text.toList.head? = some c ∧ c ≠ ')' ∧ c ≠ ']' ∧
    (c.isDigit = true → e.isNumber = true)
  unled : ∀ rest, leading? (text.toList ++ rest) = none
  reads : ∀ depth rest, text.length ≤ depth → Detached rest →
    operand (whole depth) (text.toList ++ rest) = some (e, rest)

/-- Whether a character starts an operand that is no number. -/
def opens (c : Char) : Bool :=
  (isNamePart c && !c.isDigit) || c == '\x27' || c == '[' || c == '('

/-- A text is read as an operand that may have attributes, indices and calls behind it. -/
structure ReadsReceiver (text : String) (e : Expr) : Prop where
  front : ∃ c, text.toList.head? = some c ∧ opens c = true
  reads : ∀ depth rest, text.length ≤ depth → Apart rest → ∃ bound, rest.length ≤ bound ∧
    operand (whole depth) (text.toList ++ rest) = trailers (whole depth) bound e rest

theorem toList_eq_cons_of_head? {c : Char} (h : text.toList.head? = some c) :
    ∃ cs, text.toList = c :: cs := by
  cases ht : text.toList with
  | nil =>
    rw [ht] at h
    cases h
  | cons d cs =>
    rw [ht] at h
    cases h
    exact ⟨cs, rfl⟩

theorem ne_of_opens {c d : Char} (hc : opens c = true) (hd : opens d = false) : c ≠ d := by
  rintro rfl
  rw [hc] at hd
  cases hd

theorem not_isDigit_of_opens {c : Char} (h : opens c = true) : c.isDigit = false := by
  simp only [opens, Bool.or_eq_true, Bool.and_eq_true, Bool.not_eq_true', beq_iff_eq] at h
  rcases h with ((h | rfl) | rfl) | rfl
  · exact h.2
  all_goals decide

theorem leading?_eq_none {c : Char} (h : c ∉ ['!', '~', '-', '+']) (rest : List Char) :
    leading? (c :: rest) = none := by
  unfold leading?
  split <;> first | rfl | simp_all

theorem ReadsReceiver.operand (h : ReadsReceiver text e) : ReadsOperand text e := by
  obtain ⟨c, hc, hopens⟩ := h.front
  obtain ⟨cs, ht⟩ := toList_eq_cons_of_head? hc
  refine ⟨⟨c, hc, ne_of_opens hopens (by decide), ne_of_opens hopens (by decide), fun hd => ?_⟩,
    fun rest => ?_, fun depth rest hdepth hrest => ?_⟩
  · rw [not_isDigit_of_opens hopens] at hd
    cases hd
  · rw [ht]
    refine leading?_eq_none ?_ _
    simp only [List.mem_cons, List.not_mem_nil, or_false, not_or]
    exact ⟨ne_of_opens hopens (by decide), ne_of_opens hopens (by decide),
      ne_of_opens hopens (by decide), ne_of_opens hopens (by decide)⟩
  · obtain ⟨bound, -, hread⟩ := h.reads depth rest hdepth hrest.apart
    rw [hread, trailers_of_detached hrest]

theorem ReadsOperand.whole (h : ReadsOperand text e) : ReadsWhole text e := by
  obtain ⟨c, hc, hround, hsquare, -⟩ := h.front
  refine ⟨⟨c, hc, hround, hsquare⟩, fun depth rest hdepth hrest => ?_⟩
  obtain ⟨depth, rfl⟩ : ∃ d, depth = d + 1 := ⟨depth - 1, by omega⟩
  rw [Readback.whole, h.unled rest]
  simp [h.reads depth rest (by omega) hrest.detached, continuation_of_ends hrest]

theorem length_lt_of_bracketed {opening inside closing : String} (ho : opening.length = 1)
    {depth : Nat} (h : (opening ++ inside ++ closing).length ≤ depth) : inside.length < depth := by
  simp only [String.length_append] at h
  omega

/-- What stands in parentheses is an operand. -/
theorem ReadsWhole.enclosed (h : ReadsWhole text e) : ReadsReceiver (parenthesize text) e := by
  refine ⟨⟨'(', by simp [parenthesize], by decide⟩, fun depth rest hdepth hrest => ?_⟩
  have shape : (parenthesize text).toList ++ rest = '(' :: (text.toList ++ ')' :: rest) := by
    simp [parenthesize]
  have inside := h.reads depth (')' :: rest) (length_lt_of_bracketed rfl hdepth)
    (ends_parenthesis rest)
  exact ⟨rest.length, Nat.le_refl _, by simp [shape, Readback.operand, inside]⟩

theorem ReadsWhole.read? (h : ReadsWhole text e) : read? text = some e := by
  have reads := h.reads (text.length + 1) [] (Nat.lt_succ_self _) ends_nil
  rw [List.append_nil] at reads
  rw [Readback.read?, reads]

/-! ## Literals and names -/

theorem operand_of_isNamePart (inner : Reader Expr) {c : Char} (h : isNamePart c = true)
    (rest : List Char) : operand inner (c :: rest) =
      if c.isDigit then some (integer (c :: rest))
      else trailers inner (behindWord (c :: rest)).length (.name (word (c :: rest)))
        (behindWord (c :: rest)) := by
  have differs {d : Char} (hd : isNamePart d = false) : c ≠ d := by
    rintro rfl
    rw [h] at hd
    cases hd
  rw [operand]
  · rfl
  all_goals
    intro _ heq
    cases heq
    exact absurd rfl (differs (by decide))

theorem ReadsReceiver.name {id : String} (h : isWord id = true) : ReadsReceiver id (.name id) := by
  have parts := all_isNamePart_of_isWord h
  obtain ⟨c, cs, ht, hstart⟩ : ∃ c cs, id.toList = c :: cs ∧ isNameStart c = true := by
    unfold isWord at h
    cases ht : id.toList with
    | nil =>
      rw [ht] at h
      cases h
    | cons c cs =>
      rw [ht, Bool.and_eq_true] at h
      exact ⟨c, cs, rfl, h.1⟩
  have hpart := isNamePart_of_isNameStart hstart
  have hdigit := not_isDigit_of_isNameStart hstart
  refine ⟨⟨c, by simp [ht], by simp [opens, hpart, hdigit]⟩, fun depth rest _ hrest => ?_⟩
  refine ⟨rest.length, Nat.le_refl _, ?_⟩
  have reads := operand_of_isNamePart (whole depth) hpart (cs ++ rest)
  rw [← List.cons_append, ← ht, word_append parts hrest, behindWord_append parts hrest,
    hdigit] at reads
  exact reads

theorem exists_digit_of_isNumeral (h : Expr.isNumeral text = true) :
    ∃ c cs, text.toList = c :: cs ∧ ∀ d ∈ c :: cs, d.isDigit = true := by
  simp only [Expr.isNumeral, Bool.and_eq_true, Bool.not_eq_true', List.all_eq_true] at h
  cases ht : text.toList with
  | nil => simp [ht] at h
  | cons c cs => exact ⟨c, cs, rfl, ht ▸ h.2⟩

theorem isNamePart_of_isDigit {c : Char} (h : c.isDigit = true) : isNamePart c = true := by
  simp [isNamePart, h]

theorem integer_append (h : Expr.isNumeral text = true) (hr : Apart rest) :
    integer (text.toList ++ rest) = (.constant (.int text), rest) := by
  obtain ⟨c, cs, ht, hdigits⟩ := exists_digit_of_isNumeral h
  have parts : ∀ d ∈ text.toList, isNamePart d = true := fun d hd =>
    isNamePart_of_isDigit (hdigits d (ht ▸ hd))
  rw [integer, word_append parts hr, behindWord_append parts hr]

theorem ReadsOperand.integer (h : Expr.isNumeral text = true) :
    ReadsOperand text (.constant (.int text)) := by
  obtain ⟨c, cs, ht, hdigits⟩ := exists_digit_of_isNumeral h
  have hc : c.isDigit = true := hdigits c List.mem_cons_self
  have hpart := isNamePart_of_isDigit hc
  have differs {d : Char} (hd : d.isDigit = false) : c ≠ d := by
    rintro rfl
    rw [hc] at hd
    cases hd
  refine ⟨⟨c, by simp [ht], differs (by decide), differs (by decide), fun _ => rfl⟩,
    fun rest => ?_, fun depth rest _ hrest => ?_⟩
  · rw [ht]
    refine leading?_eq_none ?_ _
    simp only [List.mem_cons, List.not_mem_nil, or_false, not_or]
    exact ⟨differs (by decide), differs (by decide), differs (by decide), differs (by decide)⟩
  · have reads := operand_of_isNamePart (Readback.whole depth) hpart (cs ++ rest)
    rw [← List.cons_append, ← ht, integer_append h hrest.apart, hc] at reads
    exact reads

/-- A sign and an integer are together an operand. -/
theorem ReadsOperand.signed {op : UnaryOp} (hs : op.isSign = true)
    (h : Expr.isNumeral text = true) :
    ReadsOperand (op.target ++ text) (.unary op (.constant (.int text))) := by
  obtain ⟨c, cs, ht, hdigits⟩ := exists_digit_of_isNumeral h
  have hc : c.isDigit = true := hdigits c List.mem_cons_self
  cases op with
  | not | invert => cases hs
  | neg | pos =>
    refine ⟨⟨_, by simp [UnaryOp.target]; rfl, by decide, by decide, fun hd => ?_⟩,
      fun rest => ?_, fun depth rest _ hrest => ?_⟩
    · cases hd
    · simp [UnaryOp.target, leading?, ht, hc]
    · have reads := integer_append h hrest.apart
      have behind : behindWord (text.toList ++ rest) = rest := congrArg Prod.snd reads
      simp [UnaryOp.target, Readback.operand, reads, behind]

theorem ReadsReceiver.string (text : String) :
    ReadsReceiver (quote text) (.constant (.str text)) := by
  refine ⟨⟨'\x27', by simp [quote], by decide⟩, fun depth rest _ hrest => ?_⟩
  have shape : (quote text).toList ++ rest =
      '\x27' :: (quoteBody text.toList ++ '\x27' :: rest) := by
    simp [quote]
  refine ⟨rest.length, Nat.le_refl _, ?_⟩
  rw [shape, Readback.operand, unquote_quoteBody]
  simp

/-! ## Lists of expressions -/

/-- Texts that each have a gap in front of them. -/
def gapped (gap : String) (texts : List String) : List Char :=
  texts.flatMap fun text => gap.toList ++ text.toList

theorem toList_separated_cons (gap text : String) (texts : List String) :
    (separated gap (text :: texts)).toList = text.toList ++ gapped gap texts := by
  induction texts generalizing text with
  | nil => simp [separated, gapped]
  | cons next texts ih =>
    have later := ih next
    rw [separated] at later ⊢
    rw [String.intercalate_cons_cons, String.toList_append, String.toList_append, later]
    simp [gapped]

theorem length_le_gapped (gap : String) {texts : List String} (h : text ∈ texts) :
    text.length ≤ (gapped gap texts).length := by
  obtain ⟨front, back, rfl⟩ := List.append_of_mem h
  simp only [gapped, List.flatMap_append, List.flatMap_cons, List.length_append,
    String.length_toList]
  omega

theorem length_le_length_gapped {gap : String} (hg : gap.length ≠ 0) (texts : List String) :
    texts.length ≤ (gapped gap texts).length := by
  induction texts with
  | nil => exact Nat.zero_le _
  | cons text texts ih =>
    rw [gapped] at ih ⊢
    simp only [List.flatMap_cons, List.length_append, List.length_cons, String.length_toList]
    omega

theorem stops_gapped {gap : String} {stops : List Char → Prop}
    (hgap : ∀ rest, stops (gap.toList ++ rest)) (hrest : stops rest) (texts : List String) :
    stops (gapped gap texts ++ rest) := by
  cases texts with
  | nil => exact hrest
  | cons text texts =>
    rw [gapped, List.flatMap_cons, List.append_assoc, List.append_assoc]
    exact hgap _

/-- Expressions behind gaps are read one after the other, in front of anything that is no gap and
ends an expression. -/
theorem further_gapped (gap : String) (stops : List Char → Prop)
    (hgap : ∀ rest, stops (gap.toList ++ rest)) {Reads : String → Expr → Prop}
    {texts : List String} {es : List Expr} (h : List.Forall₂ Reads texts es)
    (hnext : ∀ text ∈ texts, ∀ e, Reads text e → ∀ rest, stops rest →
      next (text.toList ++ rest) = some (e, rest))
    (hrest : stops rest) (hno : rest.dropPrefix? gap.toList = none) {bound : Nat}
    (hb : texts.length ≤ bound) :
    further next gap.toList bound (gapped gap texts ++ rest) = some (es, rest) := by
  induction h generalizing bound with
  | nil =>
    cases bound with
    | zero => rfl
    | succ bound => simp [further, gapped, hno]
  | @cons text e texts es hread _ ih =>
    obtain ⟨htext, htexts⟩ := List.forall_mem_cons.1 hnext
    obtain ⟨bound, rfl⟩ : ∃ b, bound = b + 1 := ⟨bound - 1, by simp at hb; omega⟩
    have stop := stops_gapped hgap hrest texts
    have dropped : (gapped gap (text :: texts) ++ rest).dropPrefix? gap.toList =
        some (text.toList ++ (gapped gap texts ++ rest)) := by
      rw [List.dropPrefix?_eq_some_iff]
      exact ⟨gap.toList, by simp [gapped], beq_self_eq_true _⟩
    rw [further, dropped]
    simp [htext e hread _ stop, ih htexts (by simpa using hb)]

/-- What stands in brackets is read up to the closing one. -/
theorem items_commaSeparated {closing : Char} (hc : closing = ')' ∨ closing = ']')
    {texts : List String} {es : List Expr} (h : List.Forall₂ ReadsWhole texts es) {depth : Nat}
    (hd : (commaSeparated texts).length < depth) (rest : List Char) :
    items (whole depth) closing ((commaSeparated texts).toList ++ closing :: rest) =
      some (es, rest) := by
  have ends : Ends (closing :: rest) := by
    rcases hc with rfl | rfl
    · exact ends_parenthesis rest
    · exact ends_bracket rest
  cases h with
  | nil => simp [items, commaSeparated, separated]
  | @cons text e texts es hread hmore =>
    rw [commaSeparated] at hd ⊢
    have length := congrArg List.length (toList_separated_cons ", " text texts)
    rw [List.length_append, String.length_toList, String.length_toList] at length
    obtain ⟨c, hhead, hround, hsquare⟩ := hread.front
    obtain ⟨cs, ht⟩ := toList_eq_cons_of_head? hhead
    have open' : ((separated ", " (text :: texts)).toList ++ closing :: rest).head? ≠
        some closing := by
      rw [toList_separated_cons, ht]
      rcases hc with rfl | rfl
      · simpa using hround
      · simpa using hsquare
    have gaps (rest : List Char) : Ends (", ".toList ++ rest) := ends_comma _
    have first := hread.reads depth _ (by omega) (stops_gapped gaps ends texts)
    have more : further (whole depth) ", ".toList (gapped ", " texts ++ closing :: rest).length
        (gapped ", " texts ++ closing :: rest) = some (es, closing :: rest) := by
      refine further_gapped ", " Ends gaps hmore (fun t ht e hread rest => ?_) ends ?_ ?_
      · have := length_le_gapped ", " ht
        exact hread.reads depth rest (by omega)
      · rcases hc with rfl | rfl <;> rfl
      · have := length_le_length_gapped (by decide : ", ".length ≠ 0) texts
        rw [List.length_append]
        omega
    rw [items, if_neg open', toList_separated_cons, List.append_assoc, first]
    simp only [Option.bind_eq_bind, Option.bind_some, more, List.head?_cons, List.tail_cons,
      if_true]

theorem ReadsReceiver.list {texts : List String} {es : List Expr}
    (h : List.Forall₂ ReadsWhole texts es) :
    ReadsReceiver ("[" ++ commaSeparated texts ++ "]") (.list es) := by
  refine ⟨⟨'[', by simp, by decide⟩, fun depth rest hdepth hrest => ?_⟩
  have shape : ("[" ++ commaSeparated texts ++ "]").toList ++ rest =
      '[' :: ((commaSeparated texts).toList ++ ']' :: rest) := by
    simp
  refine ⟨rest.length, Nat.le_refl _, ?_⟩
  rw [shape, Readback.operand,
    items_commaSeparated (.inr rfl) h (length_lt_of_bracketed rfl hdepth)]
  rfl

/-! ## Attributes, indices and calls -/

/-- Something behind a receiver that starts with a character of its own is read in its turn. -/
theorem ReadsReceiver.trailer {receiver back : String} {e' : Expr} (h : ReadsReceiver receiver e)
    {d : Char} (hd : back.toList.head? = some d) (hpart : isNamePart d = false)
    (step : ∀ depth rest bound, back.length ≤ depth → Apart rest →
      trailers (whole depth) (bound + 1) e (back.toList ++ rest) =
        trailers (whole depth) bound e' rest) :
    ReadsReceiver (receiver ++ back) e' := by
  obtain ⟨c, hc, hopens⟩ := h.front
  obtain ⟨cs, ht⟩ := toList_eq_cons_of_head? hc
  obtain ⟨ds, hback⟩ := toList_eq_cons_of_head? hd
  refine ⟨⟨c, by simp [ht], hopens⟩, fun depth rest hdepth hrest => ?_⟩
  rw [String.length_append] at hdepth
  have apart : Apart (back.toList ++ rest) := by
    rw [hback]
    exact apart_cons hpart
  obtain ⟨bound, hbound, hread⟩ := h.reads depth _ (by omega) apart
  -- The bound is at least the length of the rest, of which the first character is used up now.
  have count : rest.length < bound := by
    rw [hback, List.cons_append, List.length_cons, List.length_append] at hbound
    omega
  obtain ⟨bound, rfl⟩ : ∃ b, bound = b + 1 := ⟨bound - 1, by omega⟩
  refine ⟨bound, by omega, ?_⟩
  rw [String.toList_append, List.append_assoc, hread, step depth rest bound (by omega) hrest]

theorem ReadsReceiver.attribute {attr : String} (h : ReadsReceiver text e)
    (ha : isWord attr = true) : ReadsReceiver (text ++ "." ++ attr) (.attribute e attr) := by
  rw [String.append_assoc]
  refine h.trailer (d := '.') (by simp) (by decide) fun depth rest bound _ hrest => ?_
  have parts := all_isNamePart_of_isWord ha
  have shape : ("." ++ attr).toList ++ rest = '.' :: (attr.toList ++ rest) := by simp
  rw [shape, trailers, word_append parts hrest, behindWord_append parts hrest]

theorem ReadsReceiver.subscript {inside : String} {index : Expr} (h : ReadsReceiver text e)
    (hi : ReadsWhole inside index) :
    ReadsReceiver (text ++ "[" ++ inside ++ "]") (.subscript e index) := by
  have back : text ++ "[" ++ inside ++ "]" = text ++ ("[" ++ inside ++ "]") := by
    simp only [String.append_assoc]
  rw [back]
  refine h.trailer (d := '[') (by simp) (by decide) fun depth rest bound hdepth _ => ?_
  have shape : ("[" ++ inside ++ "]").toList ++ rest = '[' :: (inside.toList ++ ']' :: rest) := by
    simp
  rw [shape, trailers,
    hi.reads depth _ (length_lt_of_bracketed rfl hdepth) (ends_bracket rest)]
  rfl

theorem ReadsReceiver.call {texts : List String} {args : List Expr} (h : ReadsReceiver text e)
    (ha : List.Forall₂ ReadsWhole texts args) :
    ReadsReceiver (text ++ "(" ++ commaSeparated texts ++ ")") (.call e args []) := by
  have back : text ++ "(" ++ commaSeparated texts ++ ")" =
      text ++ ("(" ++ commaSeparated texts ++ ")") := by
    simp only [String.append_assoc]
  rw [back]
  refine h.trailer (d := '(') (by simp) (by decide) fun depth rest bound hdepth _ => ?_
  have shape : ("(" ++ commaSeparated texts ++ ")").toList ++ rest =
      '(' :: ((commaSeparated texts).toList ++ ')' :: rest) := by
    simp
  rw [shape, trailers,
    items_commaSeparated (.inl rfl) ha (length_lt_of_bracketed rfl hdepth)]
  rfl

/-! ## Operators -/

theorem leading?_target {op : UnaryOp} (h : ReadsOperand text e)
    (hs : isSignedNumber op e = false) (rest : List Char) :
    leading? (op.target.toList ++ (text.toList ++ rest)) = some (op, text.toList ++ rest) := by
  obtain ⟨c, hc, -, -, hdigit⟩ := h.front
  obtain ⟨cs, ht⟩ := toList_eq_cons_of_head? hc
  cases op with
  | not | invert => rfl
  | neg | pos =>
    -- A sign in front of a digit would belong to the number.
    have number : e.isNumber = false := hs
    have nodigit : c.isDigit = false := by
      rw [Bool.eq_false_iff]
      intro hd
      rw [hdigit hd] at number
      cases number
    simp [UnaryOp.target, leading?, ht, nodigit]

theorem ReadsWhole.unary {op : UnaryOp} (h : ReadsOperand text e)
    (hs : isSignedNumber op e = false) : ReadsWhole (op.target ++ text) (.unary op e) := by
  refine ⟨?_, fun depth rest hdepth hrest => ?_⟩
  · cases op with
    | not => exact ⟨'!', by simp [UnaryOp.target], by decide, by decide⟩
    | neg => exact ⟨'-', by simp [UnaryOp.target], by decide, by decide⟩
    | pos => exact ⟨'+', by simp [UnaryOp.target], by decide, by decide⟩
    | invert => exact ⟨'~', by simp [UnaryOp.target], by decide, by decide⟩
  · obtain ⟨depth, rfl⟩ : ∃ d, depth = d + 1 := ⟨depth - 1, by omega⟩
    rw [String.length_append] at hdepth
    rw [String.toList_append, List.append_assoc, whole, leading?_target h hs]
    simp [h.reads depth rest (by omega) hrest.detached]

/-- An operand, a token and what stands behind it. -/
theorem ReadsWhole.joined {a token back : String} {joint : Joint} (ha : ReadsOperand a left)
    (ht : ' ' ∉ token.toList) (hj : joint? token = some joint)
    (hb : ∀ depth rest, back.length ≤ depth → Ends rest →
      operation (operand (Readback.whole depth)) left joint (back.toList ++ rest) =
        some (e, rest)) :
    ReadsWhole (a ++ " " ++ token ++ " " ++ back) e := by
  obtain ⟨c, hc, hround, hsquare, -⟩ := ha.front
  obtain ⟨cs, hcs⟩ := toList_eq_cons_of_head? hc
  refine ⟨⟨c, by simp [hcs], hround, hsquare⟩, fun depth rest hdepth hrest => ?_⟩
  obtain ⟨depth, rfl⟩ : ∃ d, depth = d + 1 := ⟨depth - 1, by omega⟩
  simp only [String.length_append] at hdepth
  have shape : (a ++ " " ++ token ++ " " ++ back).toList ++ rest =
      a.toList ++ ' ' :: (token.toList ++ ' ' :: (back.toList ++ rest)) := by
    simp
  -- The token goes up to the blank behind it.
  have unblank : ∀ d ∈ token.toList, (d != ' ') = true := by
    intro d hd
    rw [bne_iff_ne]
    rintro rfl
    exact ht hd
  have taken : (token.toList ++ ' ' :: (back.toList ++ rest)).takeWhile (· != ' ') =
      token.toList := by
    rw [List.takeWhile_append_of_pos unblank]
    simp
  have dropped : (token.toList ++ ' ' :: (back.toList ++ rest)).dropWhile (· != ' ') =
      ' ' :: (back.toList ++ rest) := by
    rw [List.dropWhile_append_of_pos unblank]
    simp
  rw [shape, whole, ha.unled]
  simp only [ha.reads depth _ (by omega) (detached_blank _), Option.bind_eq_bind, Option.bind_some,
    continuation, taken, dropped, String.ofList_toList, hj, List.tail_cons]
  exact hb depth rest (by omega) hrest

theorem ReadsWhole.binary {a b token : String} {right : Expr} {op : BinaryOp}
    (ht : ' ' ∉ token.toList) (hj : joint? token = some (.arithmetic op))
    (ha : ReadsOperand a left) (hb : ReadsOperand b right) :
    ReadsWhole (a ++ " " ++ token ++ " " ++ b) (.binary left op right) := by
  refine ReadsWhole.joined ha ht hj fun depth rest hdepth hrest => ?_
  simp [operation, hb.reads depth rest hdepth hrest.detached]

theorem ReadsWhole.compare {a b token : String} {right : Expr} {op : Comparison}
    (ht : ' ' ∉ token.toList) (hj : joint? token = some (.relation op))
    (ha : ReadsOperand a left) (hb : ReadsOperand b right) :
    ReadsWhole (a ++ " " ++ token ++ " " ++ b) (.compare left [op] [right]) := by
  refine ReadsWhole.joined ha ht hj fun depth rest hdepth hrest => ?_
  simp [operation, hb.reads depth rest hdepth hrest.detached]

theorem ReadsWhole.conditional {a b c : String} {body orelse : Expr} (ha : ReadsOperand a left)
    (hb : ReadsOperand b body) (hc : ReadsOperand c orelse) :
    ReadsWhole (a ++ " ? " ++ b ++ " : " ++ c) (.conditional left body orelse) := by
  have shape : a ++ " ? " ++ b ++ " : " ++ c = a ++ " " ++ "?" ++ " " ++ (b ++ " : " ++ c) := by
    apply String.toList_injective
    simp
  rw [shape]
  refine ReadsWhole.joined ha (by decide) (by decide : joint? "?" = some .choice)
    fun depth rest hdepth hrest => ?_
  simp only [String.length_append] at hdepth
  have inside : (b ++ " : " ++ c).toList ++ rest =
      b.toList ++ ' ' :: ':' :: ' ' :: (c.toList ++ rest) := by
    simp
  rw [inside, operation, hb.reads depth _ (by omega) (detached_blank _)]
  simp [hc.reads depth rest (by omega) hrest.detached]

theorem dropPrefix?_of_ends (h : Ends rest) (gap : List Char) :
    rest.dropPrefix? (" ".toList ++ gap) = none := by
  cases rest with
  | nil => rfl
  | cons c rest =>
    have differs : (c == ' ') = false := by
      rcases h c rfl with rfl | rfl | rfl <;> rfl
    simp [List.dropPrefix?, differs]

theorem ReadsWhole.boolean {op : BooleanOp} {a b : String} {second : Expr} {texts : List String}
    {es : List Expr} (ha : ReadsOperand a left) (hb : ReadsOperand b second)
    (h : List.Forall₂ ReadsOperand texts es) :
    ReadsWhole (separated (" " ++ op.target ++ " ") (a :: b :: texts))
      (.boolean op (left :: second :: es)) := by
  have shape : separated (" " ++ op.target ++ " ") (a :: b :: texts) =
      a ++ " " ++ op.target ++ " " ++ separated (" " ++ op.target ++ " ") (b :: texts) := by
    rw [separated, String.intercalate_cons_cons, separated]
    simp only [String.append_assoc]
  have token : ' ' ∉ op.target.toList ∧ joint? op.target = some (.connective op) := by
    cases op <;> decide
  rw [shape]
  refine ReadsWhole.joined ha token.1 token.2 fun depth rest hdepth hrest => ?_
  have length := congrArg List.length (toList_separated_cons (" " ++ op.target ++ " ") b texts)
  rw [List.length_append, String.length_toList, String.length_toList] at length
  have gap : (" " ++ op.target ++ " ").length ≠ 0 := by
    cases op <;> decide
  have gaps (rest : List Char) : Detached ((" " ++ op.target ++ " ").toList ++ rest) := by
    rw [String.toList_append, String.toList_append, List.append_assoc, List.append_assoc]
    exact detached_blank _
  have more : further (operand (Readback.whole depth)) (" " ++ op.target ++ " ").toList
      (gapped (" " ++ op.target ++ " ") texts ++ rest).length
      (gapped (" " ++ op.target ++ " ") texts ++ rest) = some (es, rest) := by
    refine further_gapped _ Detached gaps h (fun t ht e hread rest => ?_) hrest.detached ?_ ?_
    · have := length_le_gapped (" " ++ op.target ++ " ") ht
      exact hread.reads depth rest (by omega)
    · rw [String.toList_append, String.toList_append, List.append_assoc]
      exact dropPrefix?_of_ends hrest _
    · have := length_le_length_gapped gap texts
      rw [List.length_append]
      omega
  rw [toList_separated_cons, List.append_assoc, operation,
    hb.reads depth _ (by omega) (stops_gapped gaps hrest.detached texts)]
  simp only [Option.bind_eq_bind, Option.bind_some, more]
  rfl

end Berrify.Readback
