import Berrify.Proofs.Meaning.Source

/-!
# Reading expressions of the target language

`read?` reads a text as an expression of the target language : `lex` cuts it into tokens and
`expression` reads these by levels. Signs and `!` bind tightest, then `*`, then `+` and `-`, then
the orders, then `==` and `!=`, then `&&`, then `||`, all of which group to the left; a choice `? :`
binds loosest and groups to the right. Adjacent signs are operators of their own, and `true` and
`false` are the truth values. `Term.value?` is what a term that has been read evaluates to.

A text is read in its surroundings : `LexesTo` says which tokens it becomes whatever follows, and
`AtLevel` and `Whole` say what those tokens are read as in front of a token that ends the term.
-/

namespace Berrify.Target

open Text Text.Identifier

/-! ## Tokens -/

/-- Operators and brackets. -/
inductive Symbol where
  | plus
  | minus
  | times
  | lt
  | le
  | gt
  | ge
  | eq
  | ne
  | and
  | or
  | not
  | question
  | colon
  | opening
  | closing
deriving DecidableEq, Repr

/-- The level of an operator that stands between two operands, the tightest first. -/
def Symbol.level? : Symbol → Option Nat
  | times => some 0
  | plus | minus => some 1
  | lt | le | gt | ge => some 2
  | eq | ne => some 3
  | and => some 4
  | or => some 5
  | _ => none

/-- Whether a symbol is an operator in front of an operand. -/
def Symbol.leads : Symbol → Bool
  | minus | plus | not => true
  | _ => false

/-- The number of levels. -/
def levels : Nat := 6

/-- What a text is cut into. -/
inductive Token where
  | number (n : Nat)
  | word (text : String)
  | symbol (s : Symbol)
deriving DecidableEq, Repr

/-- The symbol at the front of a text, the longest that fits, and the text behind it. -/
def symbol? : List Char → Option (Symbol × List Char)
  | '<' :: '=' :: rest => some (.le, rest)
  | '>' :: '=' :: rest => some (.ge, rest)
  | '=' :: '=' :: rest => some (.eq, rest)
  | '!' :: '=' :: rest => some (.ne, rest)
  | '&' :: '&' :: rest => some (.and, rest)
  | '|' :: '|' :: rest => some (.or, rest)
  | '<' :: rest => some (.lt, rest)
  | '>' :: rest => some (.gt, rest)
  | '!' :: rest => some (.not, rest)
  | '+' :: rest => some (.plus, rest)
  | '-' :: rest => some (.minus, rest)
  | '*' :: rest => some (.times, rest)
  | '?' :: rest => some (.question, rest)
  | ':' :: rest => some (.colon, rest)
  | '(' :: rest => some (.opening, rest)
  | ')' :: rest => some (.closing, rest)
  | _ => none

theorem length_lt_of_symbol? {text rest : List Char} {s : Symbol}
    (h : symbol? text = some (s, rest)) : rest.length < text.length := by
  unfold symbol? at h
  split at h <;> cases h <;> simp only [List.length_cons] <;> omega

/-- A run of name characters as a token : a number if it starts with a digit. -/
def run? (run : List Char) : Option Token :=
  match run with
  | c :: _ => if c.isDigit then (readDigits? 10 run).map .number else some (.word (.ofList run))
  | [] => none

/-- The tokens of a text. Blanks separate tokens, and names and numbers are as long as they can
be. -/
def lex : List Char → Option (List Token)
  | [] => some []
  | c :: rest =>
    if c = ' ' then lex rest
    else if isNamePart c then do
      let token ← run? (c :: rest.takeWhile isNamePart)
      return token :: (← lex (rest.dropWhile isNamePart))
    else
      match _h : symbol? (c :: rest) with
      | some (s, behind) => (lex behind).map (.symbol s :: ·)
      | none => none
termination_by text => text.length
decreasing_by
  · simp
  · exact Nat.lt_succ_of_le (List.dropWhile_suffix isNamePart).length_le
  · exact length_lt_of_symbol? _h

/-! ## Terms -/

/-- Expressions of the target language, as far as they compute with integers and truth values. -/
inductive Term where
  | number (n : Nat)
  | name (id : String)
  | truth (b : Bool)
  | unary (s : Symbol) (t : Term)
  | apply (s : Symbol) (left right : Term)
  | choose (test body orelse : Term)
deriving DecidableEq, Repr

/-- What a word stands for. -/
def Term.ofWord (text : String) : Term :=
  if text = "true" then .truth true else if text = "false" then .truth false else .name text

/-- The value of an operator in front of a value. -/
def Symbol.unaryValue? : Symbol → Datum → Option Datum
  | minus, .int a => some (.int (-a))
  | plus, .int a => some (.int a)
  | not, .bool a => some (.bool (!a))
  | _, _ => none

/-- The value of an operator between two values. -/
def Symbol.value? : Symbol → Datum → Datum → Option Datum
  | times, .int a, .int b => some (.int (a * b))
  | plus, .int a, .int b => some (.int (a + b))
  | minus, .int a, .int b => some (.int (a - b))
  | lt, .int a, .int b => some (.bool (decide (a < b)))
  | le, .int a, .int b => some (.bool (decide (a ≤ b)))
  | gt, .int a, .int b => some (.bool (decide (a > b)))
  | ge, .int a, .int b => some (.bool (decide (a ≥ b)))
  | eq, .int a, .int b => some (.bool (decide (a = b)))
  | ne, .int a, .int b => some (.bool (decide (a ≠ b)))
  | eq, .bool a, .bool b => some (.bool (decide (a = b)))
  | ne, .bool a, .bool b => some (.bool (decide (a ≠ b)))
  | and, .bool a, .bool b => some (.bool (a && b))
  | or, .bool a, .bool b => some (.bool (a || b))
  | _, _, _ => none

/-- The value of a left operand that decides a connective alone. -/
def Symbol.shortcut? : Symbol → Datum → Option Datum
  | and, .bool false => some (.bool false)
  | or, .bool true => some (.bool true)
  | _, _ => none

/-- The value of a term, given those of its names. -/
def Term.value? (env : String → Int) : Term → Option Datum
  | .number n => some (.int n)
  | .name id => some (.int (env id))
  | .truth b => some (.bool b)
  | .unary s t => do s.unaryValue? (← t.value? env)
  | .apply s left right => do
    let a ← left.value? env
    match s.shortcut? a with
    | some v => some v
    | none => s.value? a (← right.value? env)
  | .choose test body orelse => do
    match ← test.value? env with
    | .bool true => body.value? env
    | .bool false => orelse.value? env
    | .int _ => none

/-! ## Reading -/

/-- A reader takes a term from the front of the tokens. -/
abbrev Reader := List Token → Option (Term × List Token)

/-- Reads an operand, with `inner` for what stands in parentheses. -/
def operand (inner : Reader) : Reader
  | .number n :: rest => some (.number n, rest)
  | .word text :: rest => some (.ofWord text, rest)
  | .symbol .opening :: rest =>
    match inner rest with
    | some (t, .symbol .closing :: behind) => some (t, behind)
    | _ => none
  | .symbol s :: rest =>
    if s.leads then
      (operand inner rest).map fun read => (.unary s read.1, read.2)
    else none
  | [] => none

/-- Reads further operands behind operators of one level. The first argument bounds their
number. -/
def operands (next : Reader) (n : Nat) : Nat → Term → Reader
  | bound + 1, left, .symbol s :: rest =>
    if s.level? = some n then
      match next rest with
      | some (right, behind) => operands next n bound (.apply s left right) behind
      | none => none
    else some (left, .symbol s :: rest)
  | _, left, tokens => some (left, tokens)

/-- Reads a term whose operators lie below a level. -/
def level (inner : Reader) : Nat → Reader
  | 0, tokens => operand inner tokens
  | n + 1, tokens => do
    let (left, rest) ← level inner n tokens
    operands (level inner n) n rest.length left rest

/-- Reads an expression in which parentheses and choices are nested at most as deep as the first
argument says. -/
def expression : Nat → Reader
  | 0, _ => none
  | depth + 1, tokens => do
    let (test, rest) ← level (expression depth) levels tokens
    match rest with
    | .symbol .question :: rest =>
      match expression depth rest with
      | some (body, .symbol .colon :: rest) => do
        let (orelse, behind) ← expression depth rest
        return (.choose test body orelse, behind)
      | _ => none
    | rest => return (test, rest)

/-- Reads a whole text as an expression. -/
def read? (text : String) : Option Term := do
  let tokens ← lex text.toList
  match ← expression (tokens.length + 1) tokens with
  | (t, []) => some t
  | _ => none

/-! ## Tokens of written text -/

/-- How a symbol is written. -/
def Symbol.spelling : Symbol → String
  | plus => "+"
  | minus => "-"
  | times => "*"
  | lt => "<"
  | le => "<="
  | gt => ">"
  | ge => ">="
  | eq => "=="
  | ne => "!="
  | and => "&&"
  | or => "||"
  | not => "!"
  | question => "?"
  | colon => ":"
  | opening => "("
  | closing => ")"

theorem lex_blank (rest : List Char) : lex (' ' :: rest) = lex rest := by
  rw [lex, if_pos rfl]

theorem lex_symbol {c : Char} {text rest : List Char} {s : Symbol}
    (h : symbol? (c :: text) = some (s, rest)) (hblank : c ≠ ' ') (hname : isNamePart c = false) :
    lex (c :: text) = (lex rest).map (.symbol s :: ·) := by
  rw [lex, if_neg hblank, if_neg (by simp [hname])]
  split
  · rename_i s' rest' h'
    rw [h] at h'
    cases h'
    rfl
  · rename_i h'
    rw [h] at h'
    cases h'

/-- A symbol in front of a blank is read as it is written. -/
theorem lex_spelling (s : Symbol) (rest : List Char) :
    lex (s.spelling.toList ++ ' ' :: rest) = (lex rest).map (.symbol s :: ·) := by
  rw [← lex_blank rest]
  cases s <;> exact lex_symbol rfl (by decide) (by decide)

/-- A symbol in front of an operand is read as it is written, unless the two would be one. -/
theorem lex_leading {s : Symbol} (hs : s.leads = true ∨ s = .opening) {c : Char} (hc : c ≠ '=')
    (rest : List Char) :
    lex (s.spelling.toList ++ c :: rest) = (lex (c :: rest)).map (.symbol s :: ·) := by
  have not_eq : symbol? ('!' :: c :: rest) = some (.not, c :: rest) := by
    unfold symbol?
    split <;> simp_all
  cases s with
  | minus | plus | opening => exact lex_symbol rfl (by decide) (by decide)
  | not => exact lex_symbol not_eq (by decide) (by decide)
  | _ => simp [Symbol.leads] at hs

theorem lex_closing (rest : List Char) :
    lex (')' :: rest) = (lex rest).map (.symbol .closing :: ·) :=
  lex_symbol rfl (by decide) (by decide)

/-- A text becomes certain tokens in front of anything that cannot prolong a name, and it does not
start with a character that prolongs a symbol. -/
structure LexesTo (text : String) (tokens : List Token) : Prop where
  front : ∃ c rest, text.toList = c :: rest ∧ c ≠ '='
  lexed : ∀ rest, Apart rest → lex (text.toList ++ rest) = (lex rest).map (tokens ++ ·)

theorem apart_blank (rest : List Char) : Apart (' ' :: rest) :=
  apart_cons (by decide)

/-- A run of name characters is one token. -/
theorem LexesTo.of_run {text : String} {token : Token} (hrun : run? text.toList = some token)
    (h : ∀ c ∈ text.toList, isNamePart c = true) : LexesTo text [token] := by
  cases ht : text.toList with
  | nil =>
    rw [ht] at hrun
    cases hrun
  | cons c cs =>
    rw [ht] at hrun h
    have hc := h c List.mem_cons_self
    refine ⟨⟨c, cs, ht, ?_⟩, fun rest hrest => ?_⟩
    · rintro rfl
      exact absurd hc (by decide)
    · have hcs : ∀ d ∈ cs, isNamePart d = true := fun d hd => h d (List.mem_cons_of_mem c hd)
      have hblank : c ≠ ' ' := by
        rintro rfl
        exact absurd hc (by decide)
      rw [ht, List.cons_append, lex, if_neg hblank, if_pos hc, takeWhile_append_of_apart hrest,
        List.takeWhile_eq_self_iff.2 hcs, dropWhile_append_of_apart hrest hcs, hrun]
      cases lex rest <;> rfl

theorem LexesTo.enclosed {text : String} {tokens : List Token} (h : LexesTo text tokens) :
    LexesTo (parenthesize text) (.symbol .opening :: tokens ++ [.symbol .closing]) := by
  obtain ⟨c, cs, ht, hc⟩ := h.front
  refine ⟨⟨'(', text.toList ++ [')'], by simp [parenthesize], by decide⟩, fun rest _ => ?_⟩
  have step := h.lexed (')' :: rest) (apart_cons (by decide))
  have opened := lex_leading (Or.inr rfl : Symbol.opening.leads = true ∨ _) hc (cs ++ ')' :: rest)
  rw [← List.cons_append, ← ht, step, lex_closing] at opened
  have shape : (parenthesize text).toList ++ rest =
      Symbol.opening.spelling.toList ++ (text.toList ++ ')' :: rest) := by
    simp [parenthesize, Symbol.spelling]
  rw [shape, opened]
  cases lex rest <;> simp

theorem LexesTo.leading {s : Symbol} (hs : s.leads = true) {text : String} {tokens : List Token}
    (h : LexesTo text tokens) : LexesTo (s.spelling ++ text) (.symbol s :: tokens) := by
  obtain ⟨c, cs, ht, hc⟩ := h.front
  refine ⟨?_, fun rest hrest => ?_⟩
  · cases s with
    | minus => exact ⟨'-', text.toList, by simp [Symbol.spelling], by decide⟩
    | plus => exact ⟨'+', text.toList, by simp [Symbol.spelling], by decide⟩
    | not => exact ⟨'!', text.toList, by simp [Symbol.spelling], by decide⟩
    | _ => cases hs
  · rw [String.toList_append, List.append_assoc, ht, List.cons_append,
      lex_leading (.inl hs) hc, ← List.cons_append, ← ht, h.lexed rest hrest]
    cases lex rest <;> rfl

theorem LexesTo.between {a b : String} {as bs : List Token} (ha : LexesTo a as)
    (hb : LexesTo b bs) (s : Symbol) :
    LexesTo (a ++ " " ++ s.spelling ++ " " ++ b) (as ++ .symbol s :: bs) := by
  obtain ⟨c, cs, ht, hc⟩ := ha.front
  refine ⟨⟨c, _, by simp [ht]; rfl, hc⟩, fun rest hrest => ?_⟩
  have shape : (a ++ " " ++ s.spelling ++ " " ++ b).toList ++ rest =
      a.toList ++ ' ' :: (s.spelling.toList ++ ' ' :: (b.toList ++ rest)) := by simp
  rw [shape, ha.lexed _ (apart_blank _), lex_blank, lex_spelling, hb.lexed rest hrest]
  cases lex rest <;> simp

/-! ## Terms of tokens -/

/-- Tokens that do not continue a term whose operators lie below a level. -/
def Stops (n : Nat) (rest : List Token) : Prop :=
  ∀ s m, rest.head? = some (.symbol s) → s.level? = some m → n ≤ m

/-- Tokens that do not continue an expression. -/
structure Ends (rest : List Token) : Prop where
  stops : Stops levels rest
  noChoice : rest.head? ≠ some (.symbol .question)

theorem Stops.mono {n m : Nat} {rest : List Token} (h : Stops m rest) (hle : n ≤ m) :
    Stops n rest :=
  fun s k hs hk => Nat.le_trans hle (h s k hs hk)

theorem stops_symbol {n m : Nat} {s : Symbol} (h : s.level? = some m) (hle : n ≤ m)
    (rest : List Token) : Stops n (.symbol s :: rest) := by
  intro s' k hs hk
  cases hs
  rw [h] at hk
  cases hk
  exact hle

theorem stops_of_level?_eq_none {n : Nat} {s : Symbol} (h : s.level? = none) (rest : List Token) :
    Stops n (.symbol s :: rest) := by
  intro s' k hs hk
  cases hs
  rw [h] at hk
  cases hk

theorem ends_nil : Ends [] :=
  ⟨fun _ _ h _ => by simp at h, by simp⟩

theorem ends_closing (rest : List Token) : Ends (.symbol .closing :: rest) :=
  ⟨stops_of_level?_eq_none rfl rest, by simp⟩

theorem ends_colon (rest : List Token) : Ends (.symbol .colon :: rest) :=
  ⟨stops_of_level?_eq_none rfl rest, by simp⟩

/-- Tokens are read as a term whose operators lie below a level. -/
def AtLevel (n : Nat) (tokens : List Token) (t : Term) : Prop :=
  ∀ depth rest, tokens.length ≤ depth → Stops n rest →
    level (expression depth) n (tokens ++ rest) = some (t, rest)

/-- Tokens are read as an expression. -/
def Whole (tokens : List Token) (t : Term) : Prop :=
  ∀ depth rest, tokens.length < depth → Ends rest →
    expression depth (tokens ++ rest) = some (t, rest)

theorem operands_of_stops {next : Reader} {n : Nat} {rest : List Token} (h : Stops (n + 1) rest)
    (bound : Nat) (left : Term) : operands next n bound left rest = some (left, rest) := by
  match bound, rest with
  | 0, _ => rw [operands]; simp
  | bound + 1, [] => rfl
  | bound + 1, .number _ :: _ => rfl
  | bound + 1, .word _ :: _ => rfl
  | bound + 1, .symbol s :: rest =>
    have hs : s.level? ≠ some n := fun hn => by
      have := h s n rfl hn
      omega
    rw [operands, if_neg hs]

theorem AtLevel.succ {n : Nat} {tokens : List Token} {t : Term} (h : AtLevel n tokens t) :
    AtLevel (n + 1) tokens t := by
  intro depth rest hdepth hrest
  rw [level, h depth rest hdepth (hrest.mono (Nat.le_succ n))]
  exact operands_of_stops hrest rest.length t

theorem AtLevel.mono {n m : Nat} {tokens : List Token} {t : Term} (h : AtLevel n tokens t)
    (hle : n ≤ m) : AtLevel m tokens t := by
  induction hle with
  | refl => exact h
  | step _ ih => exact ih.succ

theorem Whole.of_atLevel {tokens : List Token} {t : Term} (h : AtLevel levels tokens t) :
    Whole tokens t := by
  intro depth rest hdepth hrest
  obtain ⟨depth, rfl⟩ : ∃ d, depth = d + 1 := ⟨depth - 1, by omega⟩
  rw [expression, h depth rest (by omega) hrest.stops]
  cases rest with
  | nil => rfl
  | cons token rest =>
    rcases token with n | w | s
    · rfl
    · rfl
    · cases s <;> first | rfl | exact absurd rfl hrest.noChoice

theorem AtLevel.number (n : Nat) : AtLevel 0 [.number n] (.number n) :=
  fun _ _ _ _ => rfl

theorem AtLevel.word (text : String) : AtLevel 0 [.word text] (.ofWord text) :=
  fun _ _ _ _ => rfl

theorem AtLevel.unary {s : Symbol} (hs : s.leads = true) {tokens : List Token} {t : Term}
    (h : AtLevel 0 tokens t) : AtLevel 0 (.symbol s :: tokens) (.unary s t) := by
  intro depth rest hdepth hrest
  have inner := h depth rest (by simp at hdepth; omega) hrest
  rw [level] at inner ⊢
  rw [List.cons_append, operand, if_pos hs, inner]
  · rfl
  · rintro rfl
    cases hs

theorem AtLevel.enclosed {tokens : List Token} {t : Term} (h : Whole tokens t) :
    AtLevel 0 (.symbol .opening :: tokens ++ [.symbol .closing]) t := by
  intro depth rest hdepth _
  have inner := h depth (.symbol .closing :: rest) (by simp at hdepth; omega) (ends_closing rest)
  rw [level, List.cons_append, List.cons_append, List.append_assoc, List.singleton_append, operand,
    inner]

theorem Whole.choose {as bs cs : List Token} {a b c : Term} (ha : AtLevel levels as a)
    (hb : Whole bs b) (hc : Whole cs c) :
    Whole (as ++ .symbol .question :: (bs ++ .symbol .colon :: cs)) (.choose a b c) := by
  intro depth rest hdepth hrest
  obtain ⟨depth, rfl⟩ : ∃ d, depth = d + 1 := ⟨depth - 1, by omega⟩
  simp only [List.length_append, List.length_cons] at hdepth
  have test := ha depth (.symbol .question :: (bs ++ .symbol .colon :: (cs ++ rest))) (by omega)
    (stops_of_level?_eq_none rfl _)
  have body := hb depth (.symbol .colon :: (cs ++ rest)) (by omega) (ends_colon _)
  have orelse := hc depth rest (by omega) hrest
  have shape : as ++ .symbol .question :: (bs ++ .symbol .colon :: cs) ++ rest =
      as ++ .symbol .question :: (bs ++ .symbol .colon :: (cs ++ rest)) := by simp
  rw [shape, expression, test]
  simp [body, orelse]

/-! ## Operators of one level -/

/-- An operator and the operand behind it. -/
structure Link where
  symbol : Symbol
  tokens : List Token
  term : Term

/-- The tokens of a link. -/
def Link.all (link : Link) : List Token :=
  .symbol link.symbol :: link.tokens

theorem Link.length_le_flatMap {link : Link} {links : List Link} (h : link ∈ links) :
    link.tokens.length ≤ (links.flatMap Link.all).length := by
  obtain ⟨pre, post, rfl⟩ := List.append_of_mem h
  rw [List.flatMap_append, List.flatMap_cons, List.length_append, List.length_append, Link.all,
    List.length_cons]
  omega

theorem Link.length_le_length_flatMap (links : List Link) :
    links.length ≤ (links.flatMap Link.all).length := by
  induction links with
  | nil => exact Nat.le_refl 0
  | cons link links ih =>
    rw [List.flatMap_cons, List.length_append, Link.all, List.length_cons, List.length_cons]
    omega

/-- A term followed by links, grouped to the left. -/
def Term.extend (t : Term) (links : List Link) : Term :=
  links.foldl (fun left link => .apply link.symbol left link.term) t

theorem stops_links {n : Nat} {links : List Link}
    (h : ∀ link ∈ links, link.symbol.level? = some n) {rest : List Token}
    (hrest : Stops (n + 1) rest) : Stops n (links.flatMap Link.all ++ rest) := by
  cases links with
  | nil => exact hrest.mono (Nat.le_succ n)
  | cons link links => exact stops_symbol (h link List.mem_cons_self) (Nat.le_refl n) _

/-- Links of one level are read one after the other. -/
theorem operands_links {next : Reader} {n : Nat} : ∀ {links : List Link}
    (_ : ∀ link ∈ links, link.symbol.level? = some n ∧
      ∀ rest, Stops n rest → next (link.tokens ++ rest) = some (link.term, rest))
    (bound : Nat) (_ : links.length ≤ bound) (t : Term) (rest : List Token)
    (_ : Stops (n + 1) rest),
    operands next n bound t (links.flatMap Link.all ++ rest) = some (t.extend links, rest)
  | [], _, bound, _, t, rest, hrest => operands_of_stops hrest bound t
  | link :: links, h, bound, hbound, t, rest, hrest => by
    obtain ⟨bound, rfl⟩ : ∃ b, bound = b + 1 := ⟨bound - 1, by simp at hbound; omega⟩
    obtain ⟨hlevel, hread⟩ := h link List.mem_cons_self
    have hlinks : ∀ l ∈ links, _ := fun l hl => h l (List.mem_cons_of_mem link hl)
    have stops := stops_links (fun l hl => (hlinks l hl).1) hrest
    have later := operands_links hlinks bound (by simpa using hbound)
      (.apply link.symbol t link.term) rest hrest
    rw [List.flatMap_cons, Link.all, List.cons_append, List.cons_append, operands, if_pos hlevel,
      List.append_assoc, hread _ stops]
    exact later

/-- A term and links of one level are together read at the next one. -/
theorem AtLevel.extend {n : Nat} {tokens : List Token} {t : Term} (h : AtLevel n tokens t)
    {links : List Link}
    (hlinks : ∀ link ∈ links, link.symbol.level? = some n ∧ AtLevel n link.tokens link.term) :
    AtLevel (n + 1) (tokens ++ links.flatMap Link.all) (t.extend links) := by
  intro depth rest hdepth hrest
  simp only [List.length_append] at hdepth
  have few : links.length ≤ (links.flatMap Link.all ++ rest).length := by
    have := Link.length_le_length_flatMap links
    rw [List.length_append]
    omega
  have stops := stops_links (fun l hl => (hlinks l hl).1) hrest
  rw [level, List.append_assoc, h depth _ (by omega) stops]
  refine operands_links (fun link hm => ⟨(hlinks link hm).1, fun rest' hrest' => ?_⟩) _ few t rest
    hrest
  have := Link.length_le_flatMap hm
  exact (hlinks link hm).2 depth rest' (by omega) hrest'

/-! ## Terms of text -/

/-- A text is read as a term whose operators lie below a level. -/
def ReadsAt (n : Nat) (text : String) (t : Term) : Prop :=
  ∃ tokens, LexesTo text tokens ∧ AtLevel n tokens t

/-- A text is read as an expression. -/
def ReadsWhole (text : String) (t : Term) : Prop :=
  ∃ tokens, LexesTo text tokens ∧ Whole tokens t

theorem ReadsAt.mono {n m : Nat} {text : String} {t : Term} (h : ReadsAt n text t)
    (hle : n ≤ m) : ReadsAt m text t := by
  obtain ⟨tokens, hlex, hread⟩ := h
  exact ⟨tokens, hlex, hread.mono hle⟩

theorem ReadsAt.whole {n : Nat} {text : String} {t : Term} (h : ReadsAt n text t)
    (hle : n ≤ levels) : ReadsWhole text t := by
  obtain ⟨tokens, hlex, hread⟩ := h
  exact ⟨tokens, hlex, .of_atLevel (hread.mono hle)⟩

theorem ReadsWhole.enclosed {text : String} {t : Term} (h : ReadsWhole text t) :
    ReadsAt 0 (parenthesize text) t := by
  obtain ⟨tokens, hlex, hread⟩ := h
  exact ⟨_, hlex.enclosed, .enclosed hread⟩

/-- A text that is read as an expression and stands alone is read as that expression. -/
theorem ReadsWhole.read? {text : String} {t : Term} (h : ReadsWhole text t) :
    read? text = some t := by
  obtain ⟨tokens, hlex, hread⟩ := h
  have lexed := hlex.lexed [] apart_nil
  have parsed := hread (tokens.length + 1) [] (Nat.lt_succ_self _) ends_nil
  rw [List.append_nil, lex, Option.map_some, List.append_nil] at lexed
  rw [List.append_nil] at parsed
  simp [Target.read?, lexed, parsed]

theorem ReadsAt.word {text : String} (h : isWord text = true) :
    ReadsAt 0 text (.ofWord text) := by
  refine ⟨[.word text], .of_run ?_ (all_isNamePart_of_isWord h), .word text⟩
  unfold isWord at h
  cases ht : text.toList with
  | nil =>
    rw [ht] at h
    cases h
  | cons c rest =>
    rw [ht, Bool.and_eq_true] at h
    have hdigit : c.isDigit = false := not_isDigit_of_isNameStart h.1
    rw [run?, hdigit, if_neg Bool.false_ne_true, ← ht, String.ofList_toList]

theorem ReadsAt.numeral {text : String} (h : Expr.isNumeral text = true) {n : Nat}
    (hn : readDigits? 10 text.toList = some n) : ReadsAt 0 text (.number n) := by
  simp only [Expr.isNumeral, Bool.and_eq_true, Bool.not_eq_true', List.all_eq_true] at h
  refine ⟨[.number n], .of_run ?_ fun c hc => ?_, .number n⟩
  · cases ht : text.toList with
    | nil =>
      rw [ht] at h
      cases h.1
    | cons c rest =>
      have hdigit : c.isDigit = true := h.2 c (by simp [ht])
      rw [run?, hdigit, if_pos rfl, ← ht, hn, Option.map_some]
  · simp [isNamePart, h.2 c hc]

theorem ReadsAt.unary {s : Symbol} (hs : s.leads = true) {text : String} {t : Term}
    (h : ReadsAt 0 text t) : ReadsAt 0 (s.spelling ++ text) (.unary s t) := by
  obtain ⟨tokens, hlex, hread⟩ := h
  exact ⟨_, hlex.leading hs, hread.unary hs⟩

theorem ReadsWhole.choose {a b c : String} {s t u : Term} (ha : ReadsAt levels a s)
    (hb : ReadsWhole b t) (hc : ReadsWhole c u) :
    ReadsWhole (a ++ " ? " ++ b ++ " : " ++ c) (.choose s t u) := by
  obtain ⟨as, hlexa, hreada⟩ := ha
  obtain ⟨bs, hlexb, hreadb⟩ := hb
  obtain ⟨cs, hlexc, hreadc⟩ := hc
  have shape : a ++ " ? " ++ b ++ " : " ++ c =
      a ++ " " ++ Symbol.question.spelling ++ " " ++
        (b ++ " " ++ Symbol.colon.spelling ++ " " ++ c) := by
    apply String.toList_injective
    simp [Symbol.spelling]
  rw [shape]
  exact ⟨_, hlexa.between (hlexb.between hlexc .colon) .question, .choose hreada hreadb hreadc⟩

theorem ReadsAt.between {n : Nat} {s : Symbol} (hs : s.level? = some n) {a b : String}
    {t u : Term} (ha : ReadsAt n a t) (hb : ReadsAt n b u) :
    ReadsAt (n + 1) (a ++ " " ++ s.spelling ++ " " ++ b) (.apply s t u) := by
  obtain ⟨as, hlexa, hreada⟩ := ha
  obtain ⟨bs, hlexb, hreadb⟩ := hb
  refine ⟨_, hlexa.between hlexb s, ?_⟩
  have link : ∀ link ∈ [Link.mk s bs u],
      link.symbol.level? = some n ∧ AtLevel n link.tokens link.term := by
    simpa using ⟨hs, hreadb⟩
  simpa [Link.all, Term.extend] using hreada.extend link

/-- Terms with one operator between them, grouped to the left. -/
def Term.joined (s : Symbol) (t : Term) (more : List Term) : Term :=
  more.foldl (.apply s) t

/-- Texts with one operator between them become the tokens of the first and links for the others. -/
theorem exists_links {n : Nat} {s : Symbol} (hs : s.level? = some n) {texts : List String}
    {terms : List Term} (h : List.Forall₂ (ReadsAt n) texts terms) :
    ∀ {text : String} {tokens : List Token}, LexesTo text tokens → ∃ links : List Link,
      LexesTo (separated (" " ++ s.spelling ++ " ") (text :: texts))
        (tokens ++ links.flatMap Link.all) ∧
      (∀ link ∈ links, link.symbol.level? = some n ∧ AtLevel n link.tokens link.term) ∧
      ∀ t : Term, t.extend links = t.joined s terms := by
  induction h with
  | nil =>
    intro text tokens htext
    refine ⟨[], ?_, by simp, fun t => rfl⟩
    simpa [separated, String.intercalate_singleton] using htext
  | @cons next u texts terms hnext _ ih =>
    intro text tokens htext
    obtain ⟨nextTokens, hlex, hread⟩ := hnext
    obtain ⟨links, hlinks, hlevels, hjoined⟩ := ih hlex
    refine ⟨⟨s, nextTokens, u⟩ :: links, ?_, ?_, fun t => hjoined (.apply s t u)⟩
    · have shape : separated (" " ++ s.spelling ++ " ") (text :: next :: texts) =
          text ++ " " ++ s.spelling ++ " " ++
            separated (" " ++ s.spelling ++ " ") (next :: texts) := by
        rw [separated, String.intercalate_cons_cons, separated]
        simp only [String.append_assoc]
      rw [shape]
      exact htext.between hlinks s
    · rintro link (_ | ⟨_, hm⟩)
      · exact ⟨hs, hread⟩
      · exact hlevels link hm

theorem ReadsAt.separated {n : Nat} {s : Symbol} (hs : s.level? = some n) {text : String}
    {t : Term} {texts : List String} {terms : List Term} (h : ReadsAt n text t)
    (hmore : List.Forall₂ (ReadsAt n) texts terms) :
    ReadsAt (n + 1) (separated (" " ++ s.spelling ++ " ") (text :: texts)) (t.joined s terms) := by
  obtain ⟨tokens, hlex, hread⟩ := h
  obtain ⟨links, hlinks, hlevels, hjoined⟩ := exists_links hs hmore hlex
  exact ⟨_, hlinks, hjoined t ▸ hread.extend hlevels⟩

end Berrify.Target
