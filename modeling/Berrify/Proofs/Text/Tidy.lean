import Berrify.Expr.Render
import Berrify.Proofs.Text.Digits
import Berrify.Proofs.Text.Quoted
import Berrify.Proofs.Text.Words
import Mathlib.Tactic.SplitIfs

/-!
# Text that keeps to its line

A text is `Tidy` if it has no line break, does not start with a blank or with a word that opens,
divides or closes a block, and if its first word is not followed by a second one. A line of output
with such a text is neither taken for a part of the block structure nor for a declaration, whatever
else stands in it.

Tidiness is a matter of the front of a text, so what is written behind a tidy text matters little :
`Tidy.append` and `Tidy.between` are the two ways in which texts are put together.
-/

namespace Berrify.Text

open Identifier

/-! ## Texts without line breaks -/

/-- A text has no line break. -/
def OneLine (text : String) : Prop :=
  '\n' ∉ text.toList

instance (text : String) : Decidable (OneLine text) :=
  inferInstanceAs (Decidable ('\n' ∉ text.toList))

theorem oneLine_append {a b : String} : OneLine (a ++ b) ↔ OneLine a ∧ OneLine b := by
  simp [OneLine, not_or]

theorem OneLine.append {a b : String} (ha : OneLine a) (hb : OneLine b) : OneLine (a ++ b) :=
  oneLine_append.2 ⟨ha, hb⟩

theorem oneLine_of_forall {text : String} (h : ∀ c ∈ text.toList, c ≠ '\n') : OneLine text :=
  fun hm => h _ hm rfl

theorem oneLine_ofList {text : List Char} (h : ∀ c ∈ text, c ≠ '\n') : OneLine (.ofList text) :=
  oneLine_of_forall (by simpa using h)

theorem oneLine_separated {separator : String} (hs : OneLine separator) : ∀ {texts : List String},
    (∀ text ∈ texts, OneLine text) → OneLine (separated separator texts)
  | [], _ => by simp [separated, OneLine]
  | [text], h => by simpa [separated] using h text
  | text :: next :: texts, h => by
    have later := oneLine_separated hs fun t ht => h t (List.mem_cons_of_mem text ht)
    rw [separated, String.intercalate_cons_cons]
    exact ((h text List.mem_cons_self).append hs).append later

theorem oneLine_commaSeparated {texts : List String} (h : ∀ text ∈ texts, OneLine text) :
    OneLine (commaSeparated texts) :=
  oneLine_separated (by decide) h

theorem oneLine_parenthesize {text : String} (h : OneLine text) : OneLine (parenthesize text) :=
  ((by decide : OneLine "(").append h).append (by decide)

theorem ne_newline_of_isNamePart {c : Char} (h : isNamePart c = true) : c ≠ '\n' := by
  rintro rfl
  exact absurd h (by decide)

theorem oneLine_of_isWord {text : String} (h : isWord text = true) : OneLine text :=
  oneLine_of_forall fun c hc => ne_newline_of_isNamePart (all_isNamePart_of_isWord h c hc)

theorem hexDigitUpper_ne_newline : ∀ value < 16, hexDigitUpper value ≠ '\n' := by
  decide

/-- A character inside a quoted literal is written without a line break. -/
theorem ne_newline_of_mem_quoteChar {c d : Char} (h : d ∈ quoteChar c) : d ≠ '\n' := by
  rintro rfl
  exact absurd (le_toNat_of_mem_quoteChar h) (by decide)

theorem oneLine_quote (text : String) : OneLine (quote text) := by
  refine ((by decide : OneLine "'").append (oneLine_ofList fun d hd => ?_)).append (by decide)
  obtain ⟨c, -, hc⟩ := List.mem_flatMap.1 hd
  exact ne_newline_of_mem_quoteChar hc

theorem oneLine_writeBytes (bytes : List UInt8) : OneLine (writeBytes bytes) := by
  refine ((by decide : OneLine "bytes('").append (oneLine_ofList fun d hd => ?_)).append (by decide)
  obtain ⟨byte, -, hd⟩ := List.mem_flatMap.1 hd
  have small := byte.toNat_lt
  simp only [hexByte, List.mem_cons, List.not_mem_nil, or_false] at hd
  rcases hd with rfl | rfl
  · exact hexDigitUpper_ne_newline _ (by omega)
  · exact hexDigitUpper_ne_newline _ (by omega)

theorem oneLine_writeInt (value : Int) : OneLine (writeInt value) := by
  have digits (n : Nat) : OneLine (writeNat n) :=
    fun hm => absurd (isDigit_of_mem_writeNat hm) (by decide)
  unfold writeInt
  split
  · exact (by decide : OneLine "-").append (digits _)
  · exact digits _

/-! ## Tidy texts -/

/-- The words that open, divide or close a block. -/
def structuralWords : List String :=
  ["class", "def", "static", "if", "elif", "else", "for", "while", "try", "except", "finally",
    "end"]

/-- Whether a text is a name and none of the structural words. -/
def isPlainName (text : String) : Bool :=
  isWord text && !structuralWords.contains text

theorem isWord_of_isPlainName {text : String} (h : isPlainName text = true) :
    isWord text = true := by
  rw [isPlainName, Bool.and_eq_true] at h
  exact h.1

theorem ne_empty_of_isPlainName {text : String} (h : isPlainName text = true) : text ≠ "" := by
  rintro rfl
  exact absurd h (by decide)

/-- What may stand behind the first word of a tidy text : a character that ends the word, and
behind a blank one that starts no other. -/
def Behind (word rest : List Char) : Prop :=
  ∀ c more, rest = c :: more → isNamePart c = false ∧
    (c = ' ' → word ≠ [] ∧ ∃ d ∈ more.head?, isNamePart d = false)

/-- A text that keeps to its line. -/
structure Tidy (text : String) : Prop where
  oneLine : OneLine text
  front : ∃ word rest, text.toList = word ++ rest ∧ (∀ c ∈ word, isNamePart c = true) ∧
    String.ofList word ∉ structuralWords ∧ Behind word rest

theorem behind_cons {word rest : List Char} {c : Char} (h : isNamePart c = false)
    (hb : c ≠ ' ') : Behind word (c :: rest) := by
  rintro _ _ ⟨⟩
  exact ⟨h, fun hc => absurd hc hb⟩

theorem Behind.apart {word rest : List Char} (h : Behind word rest) : Apart rest := by
  cases rest with
  | nil => exact apart_nil
  | cons c more => exact apart_cons (h c more rfl).1

theorem tidy_of_isPlainName {text : String} (h : isPlainName text = true) : Tidy text := by
  have word := isWord_of_isPlainName h
  refine ⟨oneLine_of_isWord word, text.toList, [], by simp, all_isNamePart_of_isWord word, ?_, ?_⟩
  · rw [isPlainName, Bool.and_eq_true] at h
    simpa using h.2
  · rintro _ _ ⟨⟩

/-- A text that starts with a symbol has no word in front. -/
theorem tidy_of_symbol {text : String} (c : Char) (h : OneLine text)
    (hc : text.toList.head? = some c) (hname : isNamePart c = false) (hblank : c ≠ ' ') :
    Tidy text := by
  cases ht : text.toList with
  | nil => simp [ht] at hc
  | cons d rest =>
    rw [ht] at hc
    cases hc
    exact ⟨h, [], c :: rest, ht, by simp, by decide, behind_cons hname hblank⟩

theorem tidy_empty : Tidy "" :=
  ⟨by decide, [], [], rfl, by simp, by decide, by rintro _ _ ⟨⟩⟩

/-- A symbol behind a tidy text leaves it tidy. -/
theorem Tidy.append {a b : String} (ha : Tidy a) (c : Char) (hb : OneLine b)
    (hc : b.toList.head? = some c) (hname : isNamePart c = false) (hblank : c ≠ ' ') :
    Tidy (a ++ b) := by
  obtain ⟨word, rest, ht, hword, hplain, hbehind⟩ := ha.front
  cases hbt : b.toList with
  | nil => simp [hbt] at hc
  | cons d more =>
    rw [hbt] at hc
    cases hc
    refine ⟨ha.oneLine.append hb, word, rest ++ c :: more, by simp [ht, hbt], hword, hplain, ?_⟩
    cases rest with
    | nil => exact behind_cons hname hblank
    | cons e rest =>
      rintro _ _ ⟨⟩
      obtain ⟨he, hsecond⟩ := hbehind e rest rfl
      refine ⟨he, fun hb => ?_⟩
      obtain ⟨hne, x, hx, hxname⟩ := hsecond hb
      exact ⟨hne, x, by simp [Option.mem_def.1 hx], hxname⟩

/-- An operator as it stands between two operands : symbols, and no name or line break. -/
def isSymbolic (token : String) : Bool :=
  !token.toList.isEmpty && token.toList.all fun c => !isNamePart c && c != ' ' && c != '\n'

theorem oneLine_of_isSymbolic {token : String} (h : isSymbolic token = true) : OneLine token := by
  simp only [isSymbolic, Bool.and_eq_true, List.all_eq_true, bne_iff_ne] at h
  exact oneLine_of_forall fun c hc => (h.2 c hc).2

theorem exists_head_of_isSymbolic {token : String} (h : isSymbolic token = true) :
    ∃ c rest, token.toList = c :: rest ∧ isNamePart c = false ∧ c ≠ ' ' := by
  simp only [isSymbolic, Bool.and_eq_true, List.all_eq_true, bne_iff_ne] at h
  cases ht : token.toList with
  | nil => simp [ht] at h
  | cons c rest =>
    have hc := (h.2 c (by simp [ht])).1
    exact ⟨c, rest, rfl, by simpa using hc.1, hc.2⟩

/-- A text with an operator in front has no word in front. -/
theorem tidy_symbolic {token a : String} (ht : isSymbolic token = true) (ha : OneLine a) :
    Tidy (token ++ a) := by
  obtain ⟨c, rest, hc, hname, hblank⟩ := exists_head_of_isSymbolic ht
  exact tidy_of_symbol c ((oneLine_of_isSymbolic ht).append ha) (by simp [hc]) hname hblank

/-- An operator and an operand behind a tidy text leave it tidy. -/
theorem Tidy.between {a token b : String} (ha : Tidy a) (hne : a ≠ "")
    (ht : isSymbolic token = true) (hb : OneLine b) : Tidy (a ++ " " ++ token ++ " " ++ b) := by
  obtain ⟨word, rest, hshape, hword, hplain, hbehind⟩ := ha.front
  obtain ⟨d, more, hd, hname, -⟩ := exists_head_of_isSymbolic ht
  have blank : OneLine " " := by decide
  refine ⟨(((ha.oneLine.append blank).append (oneLine_of_isSymbolic ht)).append blank).append hb,
    word, rest ++ ' ' :: d :: (more ++ ' ' :: b.toList), by simp [hshape, hd], hword, hplain, ?_⟩
  cases rest with
  | nil =>
    rintro _ _ ⟨⟩
    refine ⟨by decide, fun _ => ⟨?_, d, rfl, hname⟩⟩
    rintro rfl
    exact hne (String.toList_injective hshape)
  | cons e rest =>
    rintro _ _ ⟨⟩
    obtain ⟨he, hsecond⟩ := hbehind e rest rfl
    refine ⟨he, fun hb => ?_⟩
    obtain ⟨hw, x, hx, hxname⟩ := hsecond hb
    exact ⟨hw, x, by simp [Option.mem_def.1 hx], hxname⟩

/-- An assignment is tidy if its target is. -/
theorem Tidy.assigned {target value : String} (ht : Tidy target) (hne : target ≠ "")
    (hv : OneLine value) : Tidy (target ++ " = " ++ value) := by
  have line := ht.between hne (by decide : isSymbolic "=" = true) hv
  simpa [String.append_assoc] using line

theorem parenthesize_ne_empty (text : String) : parenthesize text ≠ "" := by
  simp [parenthesize]

theorem tidy_parenthesize {text : String} (h : OneLine text) : Tidy (parenthesize text) :=
  tidy_of_symbol '(' (oneLine_parenthesize h) (by simp [parenthesize]) (by decide) (by decide)

end Berrify.Text
