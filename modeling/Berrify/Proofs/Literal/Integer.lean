import Berrify.Literal.Integer
import Berrify.Proofs.Concrete.Shape
import Berrify.Proofs.Meaning.SliceSpelling
import Berrify.Proofs.Text.Escape
import Mathlib.Data.List.ReduceOption

/-!
# Integer tokens

A `Token` is an integer by the rules of the grammar : a radix, digits with separators between them,
and maybe a suffix letter. Separators stand alone; behind a mark one may come first, and without
a mark one may come last (`Parted`). `Token.text` is how a token is written and `Token.value` the
number that its digits denote.

The texts of tokens are the texts that are read as integers, each as the literal with the parts of
its token (`ofText?_eq_some_iff`). A literal becomes a constant of the same value, unless it has
a suffix or is octal or binary and does not fit into 64 bits (`Token.Becomes`), so every integer
keeps its value or is refused (`integer_tokens_keep_value`).
-/

namespace Berrify

open Text Text.Escape

/-! ## Radices -/

namespace Radix

theorem base_le (radix : Radix) : radix.base ≤ 16 := by
  cases radix <;> simp [base]

theorem allowsSuffix_iff {radix : Radix} {c : Char} :
    radix.allowsSuffix c = true ↔
      c = 'l' ∨ c = 'L' ∨ radix = .decimal ∧ (c = 'j' ∨ c = 'J') := by
  cases radix <;> simp [allowsSuffix]

/-- The letter of a mark announces its radix. -/
theorem exists_letter {radix : Radix} (h : radix ≠ .decimal) :
    ∃ letter, radix.mark = ['0', letter] ∧ ofLetter? letter = some radix := by
  cases radix with
  | decimal => exact absurd rfl h
  | hexadecimal capital | octal capital | binary capital =>
    cases capital <;> exact ⟨_, rfl, rfl⟩

theorem mark_of_letter {letter : Char} {radix : Radix} (h : ofLetter? letter = some radix) :
    radix.mark = ['0', letter] := by
  unfold ofLetter? at h
  split at h <;> cases h <;> rfl

/-- No digit of a decimal integer announces another radix. -/
theorem ofLetter?_eq_none {c : Char} (h : isDigitOf 10 c = true) : ofLetter? c = none := by
  unfold ofLetter?
  split <;> first | rfl | exact absurd h (by decide)

end Radix

namespace IntLiteral

variable {base : ℕ}

/-! ## Digits and separators -/

/-- Digits and separators as they are written; `none` is a separator. -/
def spell (pieces : List (Option (Digit base))) : List Char :=
  pieces.map fun piece => piece.elim digitSeparator Digit.char

/-- Separators stand alone between digits. One may come first if `mayPart` is set, and last unless
`closed` is set. -/
structure Parted (mayPart closed : Bool) (pieces : List (Option (Digit base))) : Prop where
  apart : pieces.IsChain fun a b => a.isSome ∨ b.isSome
  starts : mayPart = false → pieces.head? ≠ some none
  ends : closed = true → pieces.getLast? ≠ some none

theorem isDigitOf_char (hbase : base ≤ 16) (d : Digit base) : isDigitOf base d.char = true := by
  rw [isDigitOf, digitValue?_char hbase]
  rfl

theorem not_isDigitOf_separator : ¬isDigitOf base digitSeparator = true :=
  fun h => (ne_of_isDigitOf h).1 rfl

/-- Each digit that is read can be written. -/
theorem exists_char {c : Char} (h : isDigitOf base c = true) : ∃ d : Digit base, d.char = c := by
  have range {lo hi : Char} (hc : lo ≤ c ∧ c ≤ hi) : lo.toNat ≤ c.toNat ∧ c.toNat ≤ hi.toNat := by
    simpa [Char.le_def, UInt32.le_iff_toNat_le] using hc
  have written {lo : ℕ} (hc : lo ≤ c.toNat) : Char.ofNat (lo + (c.toNat - lo)) = c := by
    rw [Nat.add_sub_cancel' hc, Char.ofNat_toNat]
  rw [isDigitOf, digitValue?] at h
  split_ifs at h with decimal lower upper
  · have bounds : 48 ≤ c.toNat ∧ c.toNat ≤ 57 := range decimal
    have small : c.toNat - 48 < base := by simpa [Option.filter_some] using h
    refine ⟨⟨⟨c.toNat - 48, small⟩, false⟩, ?_⟩
    change hexDigit (c.toNat - 48) = c
    rw [hexDigit, if_pos (by omega)]
    exact written bounds.1
  · have bounds : 97 ≤ c.toNat ∧ c.toNat ≤ 102 := range lower
    have small : c.toNat - 97 + 10 < base := by simpa [Option.filter_some] using h
    refine ⟨⟨⟨c.toNat - 97 + 10, small⟩, false⟩, ?_⟩
    change hexDigit (c.toNat - 97 + 10) = c
    rw [hexDigit, if_neg (by omega), Nat.add_sub_cancel]
    exact written bounds.1
  · have bounds : 65 ≤ c.toNat ∧ c.toNat ≤ 70 := range upper
    have small : c.toNat - 65 + 10 < base := by simpa [Option.filter_some] using h
    refine ⟨⟨⟨c.toNat - 65 + 10, small⟩, true⟩, ?_⟩
    change hexDigitUpper (c.toNat - 65 + 10) = c
    rw [hexDigitUpper, if_neg (by omega), Nat.add_sub_cancel]
    exact written bounds.1
  · cases h

namespace Parted

variable {mayPart closed : Bool} {pieces : List (Option (Digit base))}

theorem nil : Parted mayPart closed ([] : List (Option (Digit base))) :=
  ⟨.nil, fun _ => nofun, fun _ => nofun⟩

/-- Behind a digit a separator may follow. -/
theorem digit_iff {d : Digit base} :
    Parted mayPart closed (some d :: pieces) ↔ Parted true closed pieces := by
  constructor
  · intro h
    refine ⟨h.apart.tail, nofun, fun hc hlast => h.ends hc ?_⟩
    rw [List.getLast?_cons, hlast, Option.getD_some]
  · intro h
    refine ⟨List.isChain_cons.2 ⟨fun _ _ => .inl rfl, h.apart⟩, fun _ => nofun, fun hc hlast => ?_⟩
    rw [List.getLast?_cons] at hlast
    cases hl : pieces.getLast? with
    | none =>
      rw [hl] at hlast
      cases hlast
    | some piece =>
      rw [hl] at hlast
      exact h.ends hc (hl.trans hlast)

/-- A separator has a digit behind it, if anything. -/
theorem separator_iff :
    Parted mayPart closed (none :: pieces) ↔
      mayPart = true ∧ (closed = true → pieces ≠ []) ∧ Parted false closed pieces := by
  constructor
  · intro h
    have first : mayPart = true := by
      cases mayPart
      · exact absurd rfl (h.starts rfl)
      · rfl
    refine ⟨first, fun hc hnil => h.ends hc (by rw [hnil]; rfl), h.apart.tail, fun _ hhead => ?_,
      fun hc hlast => h.ends hc ?_⟩
    · have next := (List.isChain_cons.1 h.apart).1 none hhead
      simp at next
    · rw [List.getLast?_cons, hlast, Option.getD_some]
  · rintro ⟨rfl, behind, h⟩
    refine ⟨List.isChain_cons.2 ⟨fun piece hp => ?_, h.apart⟩, nofun, fun hc hlast => ?_⟩
    · cases piece with
      | none => exact absurd hp (h.starts rfl)
      | some d => exact .inr rfl
    · obtain ⟨piece, hl⟩ := Option.ne_none_iff_exists'.1
        (mt List.getLast?_eq_none_iff.1 (behind hc))
      rw [List.getLast?_cons, hl] at hlast
      exact h.ends hc (hl.trans hlast)

end Parted

/-! ## Scanning the digits -/

section

variable {mayPart closed : Bool} {c : Char} {rest : List Char}

theorem scanBody_digit (hc : isDigitOf base c = true) :
    scanBody base mayPart closed (c :: rest) = c :: scanBody base true closed rest := by
  rw [scanBody.eq_def]
  exact if_pos hc

/-- A separator in front of a digit is scanned. -/
theorem scanBody_separator (hc : isDigitOf base c = true) :
    scanBody base true closed (digitSeparator :: c :: rest) =
      digitSeparator :: scanBody base false closed (c :: rest) := by
  rw [scanBody.eq_def]
  simp only [if_neg not_isDigitOf_separator, and_self, if_true, if_pos hc]

/-- A separator in front of something else is scanned if it may come last. -/
theorem scanBody_separator_end (h : ∀ c ∈ rest.head?, isDigitOf base c = false) :
    scanBody base true closed (digitSeparator :: rest) =
      if closed then [] else [digitSeparator] := by
  rw [scanBody.eq_def]
  cases rest with
  | nil => simp only [if_neg not_isDigitOf_separator, and_self, if_true]
  | cons c rest =>
    have noDigit : ¬isDigitOf base c = true := Bool.eq_false_iff.1 (h c rfl)
    simp only [if_neg not_isDigitOf_separator, and_self, if_true, if_neg noDigit]

end

/-- A text in front of which digits end. -/
def Ends (base : ℕ) (rest : List Char) : Prop :=
  ∀ c ∈ rest.head?, isDigitOf base c = false ∧ c ≠ digitSeparator

theorem scanBody_of_ends {rest : List Char} (h : Ends base rest) (mayPart closed : Bool) :
    scanBody base mayPart closed rest = [] := by
  rw [scanBody.eq_def]
  cases rest with
  | nil => rfl
  | cons c rest =>
    obtain ⟨noDigit, noSeparator⟩ := h c rfl
    simp only [noDigit, Bool.false_eq_true, if_false, noSeparator, false_and]

/-- Digits and separators are scanned as they were written. -/
theorem scanBody_spell (hbase : base ≤ 16) {mayPart closed : Bool}
    {pieces : List (Option (Digit base))} (h : Parted mayPart closed pieces) {rest : List Char}
    (hrest : Ends base rest) :
    scanBody base mayPart closed (spell pieces ++ rest) = spell pieces := by
  -- Behind a digit the scan goes on with `mayPart` set, behind a separator without it.
  induction pieces generalizing mayPart with
  | nil => exact scanBody_of_ends hrest mayPart closed
  | cons piece pieces ih =>
    cases piece with
    | some d =>
      calc scanBody base mayPart closed (d.char :: (spell pieces ++ rest))
          = d.char :: scanBody base true closed (spell pieces ++ rest) :=
            scanBody_digit (isDigitOf_char hbase d)
        _ = d.char :: spell pieces := by rw [ih (Parted.digit_iff.1 h)]
    | none =>
      obtain ⟨rfl, behind, hpieces⟩ := Parted.separator_iff.1 h
      cases pieces with
      | nil =>
        have last : closed = false := Bool.eq_false_iff.2 fun hc => behind hc rfl
        rw [last]
        exact scanBody_separator_end fun c hc => (hrest c hc).1
      | cons next pieces =>
        have digit : next ≠ none := fun hnext => hpieces.starts rfl (congrArg some hnext)
        obtain ⟨d, rfl⟩ := Option.ne_none_iff_exists'.1 digit
        calc scanBody base true closed (digitSeparator :: (spell (some d :: pieces) ++ rest))
            = digitSeparator :: scanBody base false closed (spell (some d :: pieces) ++ rest) :=
              scanBody_separator (isDigitOf_char hbase d)
          _ = digitSeparator :: spell (some d :: pieces) := by rw [ih hpieces]

/-- What is scanned are digits and separators. -/
theorem exists_spell (base : ℕ) (mayPart closed : Bool) (cs : List Char) :
    ∃ pieces : List (Option (Digit base)),
      Parted mayPart closed pieces ∧ scanBody base mayPart closed cs = spell pieces := by
  -- A separator that may come last has nothing behind it.
  have separator (hopen : ¬closed = true) :
      Parted true closed [(none : Option (Digit base))] :=
    Parted.separator_iff.2 ⟨rfl, fun hc => absurd hc hopen, .nil⟩
  fun_induction scanBody base mayPart closed cs with
  | case1 => exact ⟨[], .nil, rfl⟩
  | case2 mayPart c rest hc ih =>
    obtain ⟨d, rfl⟩ := exists_char hc
    obtain ⟨pieces, h, hspell⟩ := ih
    exact ⟨some d :: pieces, Parted.digit_iff.2 h, congrArg (d.char :: ·) hspell⟩
  | case3 mayPart c noDigit hc next tail hnext ih =>
    obtain ⟨rfl, rfl⟩ := hc
    obtain ⟨pieces, h, hspell⟩ := ih
    refine ⟨none :: pieces, Parted.separator_iff.2 ⟨rfl, fun _ hnil => ?_, h⟩,
      congrArg (digitSeparator :: ·) hspell⟩
    rw [scanBody_digit hnext, hnil] at hspell
    cases hspell
  | case4 | case6 | case8 => exact ⟨[], .nil, rfl⟩
  | case5 mayPart c noDigit hc next tail noNext hopen =>
    obtain ⟨rfl, rfl⟩ := hc
    exact ⟨[none], separator hopen, rfl⟩
  | case7 mayPart c noDigit hc hopen =>
    obtain ⟨rfl, rfl⟩ := hc
    exact ⟨[none], separator hopen, rfl⟩

theorem scanBody_prefix (base : ℕ) (mayPart closed : Bool) (cs : List Char) :
    scanBody base mayPart closed cs <+: cs := by
  fun_induction scanBody base mayPart closed cs with
  | case1 | case4 | case6 | case8 => exact List.nil_prefix
  | case2 mayPart c rest hc ih => exact (List.prefix_cons_inj c).2 ih
  | case3 mayPart c noDigit hc next tail hnext ih => exact (List.prefix_cons_inj c).2 ih
  | case5 => exact List.prefix_append [_] _
  | case7 => exact List.prefix_rfl

/-! ## Tokens -/

/-- An integer by the rules of the grammar. -/
structure Token where
  radix : Radix
  /-- The digits, the leading one first, and the separators between them. -/
  pieces : List (Option (Digit radix.base))
  given : pieces.reduceOption ≠ []
  /-- A separator may come first behind a mark, and last without one. -/
  parted : Parted (radix.mark ≠ []) (radix.mark ≠ []) pieces
  /-- The letter of a long or an imaginary integer; those with a mark are not imaginary. -/
  suffix : Option Char
  allowed : ∀ c ∈ suffix, c = 'l' ∨ c = 'L' ∨ radix = .decimal ∧ (c = 'j' ∨ c = 'J')

theorem of_mem_spell (hbase : base ≤ 16) {pieces : List (Option (Digit base))} {c : Char}
    (hc : c ∈ spell pieces) : isDigitOf base c = true ∨ c = digitSeparator := by
  obtain ⟨piece, -, rfl⟩ := List.mem_map.1 hc
  cases piece with
  | none => exact .inr rfl
  | some d => exact .inl (isDigitOf_char hbase d)

theorem filter_spell (hbase : base ≤ 16) (pieces : List (Option (Digit base))) :
    (spell pieces).filter (· ≠ digitSeparator) = spelled pieces.reduceOption := by
  induction pieces with
  | nil => rfl
  | cons piece pieces ih =>
    cases piece with
    | none =>
      change (digitSeparator :: spell pieces).filter (· ≠ digitSeparator) = _
      rw [List.filter_cons_of_neg (by simp), ih, List.reduceOption_cons_of_none]
    | some d =>
      have digit : d.char ≠ digitSeparator := (ne_of_isDigitOf (isDigitOf_char hbase d)).1
      change (d.char :: spell pieces).filter (· ≠ digitSeparator) = _
      rw [List.filter_cons_of_pos (by simpa using digit), ih, List.reduceOption_cons_of_some]
      rfl

namespace Token

variable (t : Token)

/-- The number that the digits denote. -/
def value : ℕ :=
  number t.pieces.reduceOption

/-- What is written behind the mark. -/
def behindMark : List Char :=
  spell t.pieces ++ t.suffix.toList

/-- How a token is written. -/
def text : String :=
  .ofList (t.radix.mark ++ t.behindMark)

theorem readDigits?_spell :
    readDigits? t.radix.base ((spell t.pieces).filter (· ≠ digitSeparator)) = some t.value := by
  rw [filter_spell t.radix.base_le]
  exact readDigits?_spelled t.radix.base_le t.given

/-- The literal with the parts of a token. -/
def literal : IntLiteral where
  radix := t.radix
  body := spell t.pieces
  suffix := t.suffix
  isNumeral := Option.isSome_of_eq_some t.readDigits?_spell

theorem value_literal : t.literal.value = t.value :=
  Option.get_of_eq_some _ t.readDigits?_spell

end Token

/-! ## Reading tokens -/

theorem eq_of_fields {m n : IntLiteral} (radix : m.radix = n.radix) (body : m.body = n.body)
    (suffix : m.suffix = n.suffix) : m = n := by
  cases m
  cases n
  cases radix
  cases body
  cases suffix
  rfl

/-- What is scanned behind a mark : digits, a suffix if one is allowed there, and the rest. -/
theorem scanDigits?_eq_some_iff {radix : Radix} {cs rest : List Char} {n : IntLiteral} :
    scanDigits? radix cs = some (n, rest) ↔
      n.radix = radix ∧ n.body = scanBody radix.base (radix.mark ≠ []) (radix.mark ≠ []) cs ∧
        n.suffix = (cs.drop n.body.length).head?.filter radix.allowsSuffix ∧
          cs.drop n.body.length = n.suffix.toList ++ rest := by
  obtain ⟨radix', body, suffix, numeral⟩ := n
  simp only [scanDigits?]
  generalize scanBody radix.base (radix.mark ≠ []) (radix.mark ≠ []) cs = scanned
  constructor
  · intro h
    split at h
    · simp only [Option.some.injEq, Prod.mk.injEq, IntLiteral.mk.injEq] at h
      obtain ⟨⟨rfl, rfl, rfl⟩, rfl⟩ := h
      refine ⟨rfl, rfl, ?_⟩
      cases cs.drop scanned.length with
      | nil => exact ⟨rfl, rfl⟩
      | cons c more => by_cases hc : radix.allowsSuffix c = true <;> simp [hc, Option.filter_some]
    · cases h
  · rintro ⟨rfl, rfl, rfl, hrest⟩
    rw [dif_pos numeral]
    simp only [Option.some.injEq, Prod.mk.injEq, IntLiteral.mk.injEq, true_and]
    generalize cs.drop body.length = behind at hrest
    cases behind with
    | nil => exact ⟨rfl, hrest⟩
    | cons c more =>
      by_cases hc : radix'.allowsSuffix c = true <;> simpa [hc, Option.filter_some] using hrest

theorem Token.ends_suffix (t : Token) : Ends t.radix.base t.suffix.toList := by
  intro c hc
  rw [Option.head?_toList] at hc
  rcases t.allowed c hc with rfl | rfl | ⟨-, rfl | rfl⟩ <;> exact ⟨rfl, by decide⟩

/-- Behind its mark a token is scanned as a whole. -/
theorem scanDigits?_behindMark (t : Token) :
    scanDigits? t.radix t.behindMark = some (t.literal, []) := by
  have body := scanBody_spell t.radix.base_le t.parted t.ends_suffix
  have behind : t.behindMark.drop t.literal.body.length = t.suffix.toList := List.drop_left
  have allowed : t.suffix.filter t.radix.allowsSuffix = t.suffix := by
    cases hs : t.suffix with
    | none => rfl
    | some c => exact Option.filter_some_pos (Radix.allowsSuffix_iff.2 (t.allowed c hs))
  refine scanDigits?_eq_some_iff.2 ⟨rfl, body.symm, ?_, ?_⟩
  · rw [behind, Option.head?_toList, allowed]
    rfl
  · rw [behind, List.append_nil]
    rfl

theorem exists_token_of_scanDigits? {radix : Radix} {cs : List Char} {n : IntLiteral}
    (h : scanDigits? radix cs = some (n, [])) :
    ∃ t : Token, t.radix = radix ∧ t.behindMark = cs ∧ t.literal = n := by
  obtain ⟨rfl, hbody, hsuffix, hrest⟩ := scanDigits?_eq_some_iff.1 h
  obtain ⟨behind, rfl⟩ := hbody ▸ scanBody_prefix n.radix.base _ _ cs
  obtain ⟨pieces, parted, hspell⟩ := exists_spell n.radix.base (n.radix.mark ≠ [])
    (n.radix.mark ≠ []) (n.body ++ behind)
  rw [List.drop_left] at hsuffix
  rw [List.drop_left, List.append_nil] at hrest
  have same : n.body = spell pieces := hbody.trans hspell
  have given : pieces.reduceOption ≠ [] := fun hnil => by
    have digits := (isDigitOf_of_readDigits? n.isNumeral).1
    rw [same, filter_spell n.radix.base_le, hnil] at digits
    exact digits rfl
  have allowed : ∀ c ∈ n.suffix, c = 'l' ∨ c = 'L' ∨ n.radix = .decimal ∧ (c = 'j' ∨ c = 'J') :=
    fun c hc => Radix.allowsSuffix_iff.1 (Option.mem_filter_iff.1 (hsuffix ▸ hc)).2
  exact ⟨⟨n.radix, pieces, given, parted, n.suffix, allowed⟩, rfl,
    (congrArg₂ (· ++ ·) same hrest).symm, eq_of_fields rfl same.symm rfl⟩

/-- Digits without a mark do not look like a mark. -/
theorem ofLetter?_of_mem (t : Token) (hradix : t.radix = .decimal) {c : Char}
    (hc : c ∈ t.behindMark) : Radix.ofLetter? c = none := by
  rcases List.mem_append.1 hc with hc | hc
  · rcases of_mem_spell t.radix.base_le hc with digit | rfl
    · rw [hradix] at digit
      exact Radix.ofLetter?_eq_none digit
    · rfl
  · rcases t.allowed c (Option.mem_toList.1 hc) with rfl | rfl | ⟨-, rfl | rfl⟩ <;> rfl

theorem scan?_token (t : Token) :
    scan? (t.radix.mark ++ t.behindMark) = some (t.literal, []) := by
  have read := scanDigits?_behindMark t
  by_cases hradix : t.radix = .decimal
  · rw [hradix] at read ⊢
    change scan? t.behindMark = _
    unfold scan?
    -- A zero may come first, so the next character decides.
    split
    · rename_i letter rest hcs
      have unmarked : Radix.ofLetter? letter = none := ofLetter?_of_mem t hradix (by simp [hcs])
      rw [unmarked]
      exact read
    · exact read
  · obtain ⟨letter, hmark, hletter⟩ := Radix.exists_letter hradix
    rw [hmark]
    change ((Radix.ofLetter? letter).bind (scanDigits? · t.behindMark)).or _ = _
    rw [hletter, Option.bind_some, read, Option.some_or]

theorem exists_token_of_scan? {cs : List Char} {n : IntLiteral} (h : scan? cs = some (n, [])) :
    ∃ t : Token, t.radix.mark ++ t.behindMark = cs ∧ t.literal = n := by
  unfold scan? at h
  rcases Option.or_eq_some_iff.1 h with h | ⟨-, h⟩
  · split at h
    · rename_i letter rest
      obtain ⟨radix, hletter, h⟩ := Option.bind_eq_some_iff.1 h
      obtain ⟨t, rfl, rfl, hn⟩ := exists_token_of_scanDigits? h
      exact ⟨t, by rw [Radix.mark_of_letter hletter]; rfl, hn⟩
    · cases h
  · obtain ⟨t, hradix, rfl, hn⟩ := exists_token_of_scanDigits? h
    exact ⟨t, by rw [hradix]; rfl, hn⟩

/-- The texts that are read as integers are those of tokens. -/
theorem ofText?_eq_some_iff {text : String} {n : IntLiteral} :
    ofText? text = some n ↔ ∃ t : Token, t.text = text ∧ t.literal = n := by
  have whole : ofText? text = some n ↔ scan? text.toList = some (n, []) := by
    unfold ofText?
    split
    · rename_i m hscan
      rw [hscan]
      simp
    · rename_i hscan
      exact ⟨nofun, fun h => absurd h (hscan n)⟩
  rw [whole]
  constructor
  · intro h
    obtain ⟨t, ht, hn⟩ := exists_token_of_scan? h
    exact ⟨t, by rw [Token.text, ht, String.ofList_toList], hn⟩
  · rintro ⟨t, rfl, rfl⟩
    rw [Token.text, String.toList_ofList]
    exact scan?_token t

/-! ## What tokens become -/

/-- What an integer becomes : a constant of its value whose text has no separators, or else it is
refused, for its suffix or as an octal or binary integer that does not fit into 64 bits. -/
inductive Token.Becomes (t : Token) : Expr → Prop where
  | suffixed : t.suffix.isSome = true → Becomes t (.unsupported "integer suffix")
  | outOfRange : t.suffix = none → t.radix.base = 8 ∨ t.radix.base = 2 → 2 ^ 63 ≤ t.value →
      Becomes t (.unsupported "integer literal out of range")
  | kept {text : String} : t.suffix = none →
      (t.radix.base = 8 ∨ t.radix.base = 2 → t.value < 2 ^ 63) → '_' ∉ text.toList →
      Expr.ConstantBound (.constant (.int text)) t.value → Becomes t (.constant (.int text))

section

variable {n : IntLiteral}

theorem lower_of_suffix (h : n.suffix.isSome = true) : n.lower = .unsupported "integer suffix" :=
  if_pos h

/-- Octal and binary integers are written in decimal if they fit into 64 bits. -/
theorem lower_of_short (hsuffix : n.suffix = none)
    (hradix : n.radix.base = 8 ∨ n.radix.base = 2) :
    n.lower = if n.value < 2 ^ 63 then .constant (.int (writeNat n.value))
      else .unsupported "integer literal out of range" := by
  rw [lower, if_neg (by simp [hsuffix])]
  cases h : n.radix with
  | decimal | hexadecimal => simp [h, Radix.base] at hradix
  | octal | binary => rfl

/-- Decimal and hexadecimal integers are constants of any size. -/
theorem exists_lower_of_long (hsuffix : n.suffix = none)
    (hradix : ¬(n.radix.base = 8 ∨ n.radix.base = 2)) :
    ∃ text, n.lower = .constant (.int text) := by
  rw [lower, if_neg (by simp [hsuffix])]
  cases h : n.radix with
  | decimal | hexadecimal => exact ⟨_, rfl⟩
  | octal | binary => simp [h, Radix.base] at hradix

end

theorem Token.kept_of_lower (t : Token) {text : String}
    (h : t.literal.lower = .constant (.int text)) :
    '_' ∉ text.toList ∧ Expr.ConstantBound (.constant (.int text)) t.value := by
  constructor
  · rcases t.literal.lower_cases with ⟨text', h', shape⟩ | ⟨kind, h'⟩
    · obtain rfl : text = text' := by simpa using h.symm.trans h'
      exact shape.noSeparator
    · cases h.symm.trans h'
  · rw [← h, ← t.value_literal]
    exact Expr.constantBound_lower h

theorem Token.becomes_lower (t : Token) : t.Becomes t.literal.lower := by
  cases hsuffix : t.suffix with
  | some c =>
    have suffixed : t.suffix.isSome = true := Option.isSome_of_eq_some hsuffix
    rw [lower_of_suffix suffixed]
    exact .suffixed suffixed
  | none =>
    by_cases hradix : t.radix.base = 8 ∨ t.radix.base = 2
    · have short := lower_of_short (n := t.literal) hsuffix hradix
      rw [t.value_literal] at short
      by_cases hvalue : t.value < 2 ^ 63
      · rw [if_pos hvalue] at short
        obtain ⟨noSeparator, value⟩ := t.kept_of_lower short
        exact short ▸ .kept hsuffix (fun _ => hvalue) noSeparator value
      · rw [short, if_neg hvalue]
        exact .outOfRange hsuffix hradix (Nat.le_of_not_lt hvalue)
    · obtain ⟨text, long⟩ := exists_lower_of_long (n := t.literal) hsuffix hradix
      obtain ⟨noSeparator, value⟩ := t.kept_of_lower long
      exact long ▸ .kept hsuffix (fun h => absurd h hradix) noSeparator value

/-- The texts of tokens are the texts that are read as integers, and every integer keeps its value
or is refused as `Token.Becomes` says. -/
theorem integer_tokens_keep_value :
    (∀ text, (ofText? text).isSome = true ↔ ∃ t : Token, t.text = text) ∧
      ∀ t : Token, ∃ n, ofText? t.text = some n ∧ t.Becomes n.lower := by
  constructor
  · intro text
    rw [Option.isSome_iff_exists]
    constructor
    · rintro ⟨n, h⟩
      obtain ⟨t, ht, -⟩ := ofText?_eq_some_iff.1 h
      exact ⟨t, ht⟩
    · rintro ⟨t, ht⟩
      exact ⟨t.literal, ofText?_eq_some_iff.2 ⟨t, ht, rfl⟩⟩
  · intro t
    exact ⟨t.literal, ofText?_eq_some_iff.2 ⟨t, rfl, rfl⟩, t.becomes_lower⟩

/-- The largest octal integer that is kept, and the next one. -/
example :
    (ofText? "0O_7_77777777777777777777").map lower =
        some (.constant (.int "9223372036854775807")) ∧
      (ofText? "0o1_000000000000000000000").map lower =
        some (.unsupported "integer literal out of range") := by
  decide +kernel

end IntLiteral

end Berrify
