import Berrify.Text.Quoted
import Berrify.Proofs.Text.Escape

/-!
# Quoted texts

Between the quotes of a quoted text each character is spelled as one token that stands for it
(`exists_token`), and none of these tokens is an octal escape, so they can stand next to each other.
What is read between the quotes is therefore the text (`decodeText_quoteBody`), in one line and
without a quote that would end it (`isEnclosed`), and different texts are quoted differently
(`quote_denotes_text`).
-/

namespace Berrify.Text

open Escape

/-- Whether a closing quote behind a text is the first one that ends it : each quote and the last
backslash belong to an escape of two characters. -/
def isEnclosed : List Char → Bool
  | '\\' :: _ :: rest => isEnclosed rest
  | ['\\'] => false
  | '\x27' :: _ => false
  | _ :: rest => isEnclosed rest
  | [] => true

theorem isEnclosed_cons {c : Char} (hbackslash : c ≠ '\\') (hquote : c ≠ '\x27')
    (rest : List Char) : isEnclosed (c :: rest) = isEnclosed rest := by
  rw [isEnclosed]
  · rintro _ _ rfl
    exact absurd rfl hbackslash
  · rintro rfl
    exact absurd rfl hbackslash
  · rintro rfl
    exact absurd rfl hquote

theorem hexDigit_plain : ∀ value < 16,
    0x20 ≤ (hexDigit value).toNat ∧ hexDigit value ≠ '\\' ∧ hexDigit value ≠ '\x27' := by
  decide

/-- Quoting writes no control characters. -/
theorem le_toNat_of_mem_quoteChar {c d : Char} (h : d ∈ quoteChar c) : 0x20 ≤ d.toNat := by
  have escape {letter : Char} (hletter : 0x20 ≤ letter.toNat) (hd : d ∈ ['\\', letter]) :
      0x20 ≤ d.toNat := by
    rcases List.mem_pair.1 hd with rfl | rfl
    · decide
    · exact hletter
  unfold quoteChar at h
  split_ifs at h with backslash quote newline feed tab control
  · exact escape (by decide) h
  · exact escape (by decide) h
  · exact escape (by decide) h
  · exact escape (by decide) h
  · exact escape (by decide) h
  · have parts : d ∈ ['\\', 'x'] ++ [hexDigit (c.toNat / 16), hexDigit (c.toNat % 16)] := h
    rcases List.mem_append.1 parts with h | h
    · exact escape (by decide) h
    · rcases List.mem_pair.1 h with rfl | rfl
      · exact (hexDigit_plain _ (by omega)).1
      · exact (hexDigit_plain _ (by omega)).1
  · obtain rfl := List.mem_singleton.1 h
    exact Nat.le_of_not_lt control

/-- A quoted character neither ends a literal nor takes anything behind it into an escape. -/
theorem isEnclosed_quoteChar_append (c : Char) (rest : List Char) :
    isEnclosed (quoteChar c ++ rest) = isEnclosed rest := by
  unfold quoteChar
  split_ifs with backslash quote newline feed tab control
  · rfl
  · rfl
  · rfl
  · rfl
  · rfl
  · obtain ⟨-, high⟩ := hexDigit_plain (c.toNat / 16) (by omega)
    obtain ⟨-, low⟩ := hexDigit_plain (c.toNat % 16) (by omega)
    exact (isEnclosed_cons high.1 high.2 _).trans (isEnclosed_cons low.1 low.2 rest)
  · exact isEnclosed_cons backslash quote rest

theorem isEnclosed_quoteBody (text : List Char) : isEnclosed (quoteBody text) = true := by
  induction text with
  | nil => rfl
  | cons c text ih =>
    rw [quoteBody, List.flatMap_cons, isEnclosed_quoteChar_append]
    exact ih

theorem scalar_toNat (c : Char) : scalar c.toNat = c := by
  have valid : c.toNat.isValidChar := c.valid
  have whole := Char.ofNat_toNat c
  rw [Char.ofNat, dif_pos valid] at whole
  rw [scalar, dif_pos valid]
  exact whole

/-- A quoted character is the spelling of a token that is read as the character, whatever stands
behind it. -/
theorem exists_token (c : Char) : ∃ t : Token, t.spelling = quoteChar c ∧
    (∀ rest, t.Ends rest) ∧ (t.units .text).map Unit.toChar = [c] := by
  have named {letter meaning : Char} (listed : (letter, meaning) ∈ namedEscapes) :
      ∃ t : Token, t.spelling = ['\\', letter] ∧ (∀ rest, t.Ends rest) ∧
        (t.units .text).map Unit.toChar = [meaning] :=
    ⟨.named letter meaning listed, rfl, fun _ => trivial, rfl⟩
  unfold quoteChar
  split_ifs with backslash quote newline feed tab control
  · subst backslash
    exact named (by decide)
  · subst quote
    exact named (by decide)
  · subst newline
    exact named (by decide)
  · subst feed
    exact named (by decide)
  · subst tab
    exact named (by decide)
  · let digits : List (Digit 16) :=
      [⟨⟨c.toNat / 16, by omega⟩, false⟩, ⟨⟨c.toNat % 16, by omega⟩, false⟩]
    have code : number digits = c.toNat := by
      have spelled : number digits = c.toNat % 16 + 16 * (c.toNat / 16) := by
        simp [number, digits, Nat.ofDigits_cons]
      omega
    refine ⟨.hex .byte digits rfl, rfl, fun _ => trivial, ?_⟩
    change [scalar (number digits)] = [c]
    rw [code, scalar_toNat]
  · exact ⟨.plain c backslash, rfl, fun _ => trivial, rfl⟩

/-- What stands between the quotes is read as the text. -/
theorem decodeText_quoteBody (text : List Char) : decodeText (quoteBody text) = text := by
  induction text with
  | nil => rfl
  | cons c text ih =>
    obtain ⟨t, hspelling, hends, hchar⟩ := exists_token c
    have read := unitsFrom_spelling .text (hends (quoteBody text))
    rw [hspelling] at read
    calc decodeText (quoteBody (c :: text))
        = (unitsFrom .text 0 (quoteChar c ++ quoteBody text)).map Unit.toChar := rfl
      _ = (t.units .text).map Unit.toChar ++ decodeText (quoteBody text) := by
          rw [read, List.map_append]
          rfl
      _ = c :: text := by rw [hchar, ih, List.singleton_append]

theorem utf8_toList (text : String) : utf8 text.toList = text.toUTF8.data.toList := by
  rw [String.toUTF8, ← String.utf8Encode_toList, List.utf8Encode]
  simp [utf8]

/-- A quoted text has no control characters and no quote inside that could end it, and what stands
between its quotes is read as the text. -/
theorem quote_denotes_text :
    (∀ text : String, ∃ body : List Char, quote text = "'" ++ String.ofList body ++ "'" ∧
      (∀ c ∈ body, 0x20 ≤ c.toNat) ∧ isEnclosed body = true ∧
      decode .text body = text.toUTF8.data.toList) ∧
    Function.Injective quote := by
  refine ⟨fun text => ⟨quoteBody text.toList, rfl, fun c hc => ?_, isEnclosed_quoteBody _, ?_⟩,
    fun a b h => ?_⟩
  · obtain ⟨d, -, hd⟩ := List.mem_flatMap.1 hc
    exact le_toNat_of_mem_quoteChar hd
  · rw [decode, decodeText_quoteBody, utf8_toList]
  · have bodies : quoteBody a.toList = quoteBody b.toList := by
      have texts := congrArg String.toList h
      simpa [quote] using texts
    have decoded := congrArg decodeText bodies
    rw [decodeText_quoteBody, decodeText_quoteBody] at decoded
    exact String.toList_injective decoded

end Berrify.Text
