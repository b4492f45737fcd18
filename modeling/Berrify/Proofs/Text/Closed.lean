import Berrify.Expr.Render
import Berrify.Proofs.Text.Digits
import Berrify.Proofs.Text.Quoted
import Berrify.Proofs.Text.Words

/-!
# Texts that are closed

`Scanner.next` reads a text character by character : outside of strings it keeps the closing
brackets that are due, innermost first, and inside of a string it only looks for its end. A text is
`Closed` if it has no control characters and if reading it outside of strings, with whatever is due,
ends outside of strings with the same brackets due : it ends all strings that it starts and closes
its own brackets, in order, and no others.

Closed texts stand next to each other (`Closed.append`) and between the two brackets of a kind
(`Closed.bracketed`). A quoted text is closed whatever it quotes (`closed_quote`).
-/

namespace Berrify.Text

open Identifier

/-! ## Scanning -/

/-- The closing bracket of an opening one. -/
def closing? : Char → Option Char
  | '(' => some ')'
  | '[' => some ']'
  | '\x7b' => some '\x7d'
  | _ => none

/-- Whether a character is a closing bracket. -/
def isClosing (c : Char) : Bool :=
  c == ')' || c == ']' || c == '\x7d'

/-- Where the reading of a text stands : outside of strings, inside of a string, or behind a
backslash there. The closing brackets that are due are listed innermost first. -/
inductive Scanner where
  | outside (due : List Char)
  | inside (due : List Char)
  | escaped (due : List Char)
deriving DecidableEq, Repr

/-- Where the reading stands after one more character. A closing bracket that is not due is
refused. -/
def Scanner.next : Scanner → Char → Option Scanner
  | .outside due, c =>
    if c = '\x27' then some (.inside due)
    else match closing? c with
      | some closer => some (.outside (closer :: due))
      | none =>
        if isClosing c then
          match due with
          | closer :: rest => if c = closer then some (.outside rest) else none
          | [] => none
        else some (.outside due)
  | .inside due, c =>
    if c = '\x27' then some (.outside due)
    else if c = '\\' then some (.escaped due)
    else some (.inside due)
  | .escaped due, _ => some (.inside due)

/-- Where the reading stands after a text. -/
def Scanner.read (scanner : Scanner) (text : List Char) : Option Scanner :=
  text.foldlM Scanner.next scanner

theorem Scanner.read_append (scanner : Scanner) (a b : List Char) :
    scanner.read (a ++ b) = (scanner.read a).bind (Scanner.read · b) :=
  List.foldlM_append

theorem Scanner.read_cons (scanner : Scanner) (c : Char) (text : List Char) :
    scanner.read (c :: text) = (scanner.next c).bind (Scanner.read · text) :=
  List.foldlM_cons

@[simp] theorem Scanner.read_nil (scanner : Scanner) : scanner.read [] = some scanner :=
  rfl

/-- Whether a character means nothing outside of strings : it is no control character, quote or
bracket. -/
def isInert (c : Char) : Bool :=
  decide (0x20 ≤ c.toNat) && c != '\x27' && (closing? c).isNone && !isClosing c

theorem Scanner.next_of_isInert {c : Char} (h : isInert c = true) (due : List Char) :
    (Scanner.outside due).next c = some (.outside due) := by
  simp only [isInert, Bool.and_eq_true, bne_iff_ne, Option.isNone_iff_eq_none,
    Bool.not_eq_true'] at h
  obtain ⟨⟨⟨-, quote⟩, opening⟩, closing⟩ := h
  simp only [Scanner.next, if_neg quote, opening, closing, if_neg Bool.false_ne_true]

/-- The body of a string literal is read up to the quote behind it. -/
theorem Scanner.read_body (due : List Char) {body : List Char} (h : isEnclosed body = true) :
    (Scanner.inside due).read (body ++ ['\x27']) = some (.outside due) := by
  induction body using isEnclosed.induct with
  | case1 c rest ih =>
    rw [isEnclosed] at h
    exact ih h
  | case2 => cases h
  | case3 rest => simp [isEnclosed] at h
  | case4 c rest hescape hbackslash hquote ih =>
    have plain : c ≠ '\\' := by
      rintro rfl
      cases rest with
      | nil => exact hbackslash rfl rfl
      | cons d rest => exact hescape d rest rfl rfl
    have quote : c ≠ '\x27' := fun hc => hquote hc
    rw [isEnclosed_cons plain quote] at h
    rw [List.cons_append, Scanner.read_cons, Scanner.next, if_neg quote, if_neg plain]
    exact ih h
  | case5 => rfl

/-! ## Closed texts -/

/-- A text that ends its strings, closes its brackets and has no control characters. -/
structure Closed (text : String) : Prop where
  printable : ∀ c ∈ text.toList, 0x20 ≤ c.toNat
  balanced : ∀ due, (Scanner.outside due).read text.toList = some (.outside due)

theorem Closed.append {a b : String} (ha : Closed a) (hb : Closed b) : Closed (a ++ b) where
  printable c hc := by
    rw [String.toList_append] at hc
    exact (List.mem_append.1 hc).elim (ha.printable c) (hb.printable c)
  balanced due := by
    rw [String.toList_append, Scanner.read_append, ha.balanced]
    exact hb.balanced due

/-- Characters that mean nothing outside of strings are closed. -/
theorem closed_of_isInert {text : String} (h : text.toList.all isInert = true) :
    Closed text where
  printable c hc := by
    have inert := List.all_eq_true.1 h c hc
    simp only [isInert, Bool.and_eq_true, decide_eq_true_eq] at inert
    exact inert.1.1.1
  balanced due := by
    generalize text.toList = chars at h
    induction chars with
    | nil => rfl
    | cons c chars ih =>
      obtain ⟨first, others⟩ := Bool.and_eq_true_iff.1 h
      rw [Scanner.read_cons, Scanner.next_of_isInert first]
      exact ih others

/-- A closed text between the two brackets of a kind is closed. -/
theorem Closed.bracketed {text opener closer : String} (h : Closed text) {o c : Char}
    (ho : opener.toList = [o]) (hc : closer.toList = [c]) (hoc : closing? o = some c) :
    Closed (opener ++ text ++ closer) := by
  have kinds : (o = '(' ∧ c = ')') ∨ (o = '[' ∧ c = ']') ∨ (o = '\x7b' ∧ c = '\x7d') := by
    unfold closing? at hoc
    split at hoc <;> cases hoc <;> simp
  have opens (due : List Char) : (Scanner.outside due).next o = some (.outside (c :: due)) := by
    rcases kinds with ⟨rfl, rfl⟩ | ⟨rfl, rfl⟩ | ⟨rfl, rfl⟩ <;> rfl
  have closes (due : List Char) : (Scanner.outside (c :: due)).next c = some (.outside due) := by
    rcases kinds with ⟨rfl, rfl⟩ | ⟨rfl, rfl⟩ | ⟨rfl, rfl⟩ <;> rfl
  have printable : 0x20 ≤ o.toNat ∧ 0x20 ≤ c.toNat := by
    rcases kinds with ⟨rfl, rfl⟩ | ⟨rfl, rfl⟩ | ⟨rfl, rfl⟩ <;> decide
  constructor
  · intro d hd
    simp only [String.toList_append, ho, hc, List.mem_append, List.mem_singleton] at hd
    rcases hd with (rfl | hd) | rfl
    · exact printable.1
    · exact h.printable d hd
    · exact printable.2
  · intro due
    rw [String.toList_append, String.toList_append, ho, hc, Scanner.read_append,
      List.singleton_append, Scanner.read_cons, opens, Option.bind_some, h.balanced,
      Option.bind_some, Scanner.read_cons, closes, Option.bind_some, Scanner.read_nil]

theorem Closed.parenthesize {text : String} (h : Closed text) : Closed (parenthesize text) :=
  h.bracketed rfl rfl rfl

/-- A string literal is closed. -/
theorem closed_literal {body : List Char} (hp : ∀ c ∈ body, 0x20 ≤ c.toNat)
    (h : isEnclosed body = true) : Closed ("'" ++ String.ofList body ++ "'") where
  printable c hc := by
    simp only [String.toList_append, String.toList_ofList, List.mem_append] at hc
    rcases hc with (hc | hc) | hc
    · exact List.mem_singleton.1 hc ▸ (by decide)
    · exact hp c hc
    · exact List.mem_singleton.1 hc ▸ (by decide)
  balanced due := by
    have chars : ("'" ++ String.ofList body ++ "'").toList = '\x27' :: (body ++ ['\x27']) := by
      simp
    rw [chars, Scanner.read_cons]
    exact Scanner.read_body due h

theorem closed_quote (text : String) : Closed (quote text) := by
  refine closed_literal (fun c hc => ?_) (isEnclosed_quoteBody _)
  obtain ⟨d, -, hd⟩ := List.mem_flatMap.1 hc
  exact le_toNat_of_mem_quoteChar hd

theorem hexDigitUpper_plain : ∀ value < 16, 0x20 ≤ (hexDigitUpper value).toNat ∧
    hexDigitUpper value ≠ '\\' ∧ hexDigitUpper value ≠ '\x27' := by
  decide

theorem closed_writeBytes (bytes : List UInt8) : Closed (writeBytes bytes) := by
  have plain : ∀ c ∈ bytes.flatMap hexByte, 0x20 ≤ c.toNat ∧ c ≠ '\\' ∧ c ≠ '\x27' := by
    intro c hc
    obtain ⟨byte, -, hc⟩ := List.mem_flatMap.1 hc
    have small := byte.toNat_lt
    simp only [hexByte, List.mem_cons, List.not_mem_nil, or_false] at hc
    rcases hc with rfl | rfl
    · exact hexDigitUpper_plain _ (by omega)
    · exact hexDigitUpper_plain _ (by omega)
  have enclosed {body : List Char} (h : ∀ c ∈ body, 0x20 ≤ c.toNat ∧ c ≠ '\\' ∧ c ≠ '\x27') :
      isEnclosed body = true := by
    induction body with
    | nil => rfl
    | cons c body ih =>
      obtain ⟨⟨-, backslash, quote⟩, others⟩ := List.forall_mem_cons.1 h
      rw [isEnclosed_cons backslash quote]
      exact ih others
  have literal := closed_literal (fun c hc => (plain c hc).1) (enclosed plain)
  have shape : writeBytes bytes =
      "bytes" ++ parenthesize ("'" ++ String.ofList (bytes.flatMap hexByte) ++ "'") := by
    apply String.toList_injective
    simp [writeBytes, parenthesize]
  rw [shape]
  exact (closed_of_isInert (by decide)).append literal.parenthesize

theorem closed_separated {separator : String} (hs : Closed separator) : ∀ {texts : List String},
    (∀ text ∈ texts, Closed text) → Closed (separated separator texts)
  | [], _ => closed_of_isInert (by simp [separated])
  | [text], h => by simpa [separated] using h text
  | text :: next :: texts, h => by
    have later := closed_separated hs fun t ht => h t (List.mem_cons_of_mem text ht)
    rw [separated, String.intercalate_cons_cons]
    exact ((h text List.mem_cons_self).append hs).append later

theorem closed_commaSeparated {texts : List String} (h : ∀ text ∈ texts, Closed text) :
    Closed (commaSeparated texts) :=
  closed_separated (closed_of_isInert (by decide)) h

/-! ## Names and numbers -/

/-- The characters that mean something outside of strings may not stand in names or numbers. -/
theorem excluded_of_not_isInert {c : Char} (h : isInert c = false) :
    isNamePart c = false ∧ c ≠ '.' ∧ c ≠ '+' ∧ c ≠ '-' := by
  have codes : ∀ code < 0x20, isNamePart (Char.ofNat code) = false ∧ Char.ofNat code ≠ '.' ∧
      Char.ofNat code ≠ '+' ∧ Char.ofNat code ≠ '-' := by
    decide
  simp only [isInert, Bool.and_eq_false_iff, decide_eq_false_iff_not, Nat.not_le,
    bne_eq_false_iff_eq, Option.isNone_eq_false_iff, Bool.not_eq_false'] at h
  rcases h with ((h | rfl) | h) | h
  · have := codes c.toNat h
    rwa [Char.ofNat_toNat] at this
  · decide
  · unfold closing? at h
    split at h <;> first | decide | cases h
  · simp only [isClosing, Bool.or_eq_true, beq_iff_eq] at h
    rcases h with (rfl | rfl) | rfl <;> decide

theorem closed_of_isWord {text : String} (h : isWord text = true) : Closed text := by
  refine closed_of_isInert (List.all_eq_true.2 fun c hc => ?_)
  by_contra inert
  have part := all_isNamePart_of_isWord h c hc
  rw [(excluded_of_not_isInert (Bool.eq_false_iff.2 inert)).1] at part
  cases part

end Berrify.Text
