import Berrify.Text.Digits
import Mathlib.Data.Nat.Notation
import Mathlib.Tactic.SplitIfs

/-!
# Decimal numerals

Digits denote the number that they spell from the left (`readDigitsFrom?_of_digits`), so the text of
a number is read as that number (`readDigits?_writeNat`). A numeral without a sign that denotes a
number below `2 ^ 63` is an integer of 64 bits (`readInt64?_of_digits`).
-/

namespace Berrify.Text

theorem digitValue?_of_isDigit {c : Char} (h : c.isDigit = true) :
    digitValue? 10 c = some (c.toNat - '0'.toNat) := by
  have bounds : '0' ≤ c ∧ c ≤ '9' := by
    simpa [Char.isDigit, Char.le_def] using h
  have small : c.toNat - '0'.toNat < 10 := by
    have upper := bounds.2
    simp only [Char.le_def, UInt32.le_iff_toNat_le] at upper
    change c.val.toNat ≤ 57 at upper
    change c.val.toNat - 48 < 10
    omega
  rw [digitValue?, if_pos bounds, Option.filter_some, if_pos (decide_eq_true small)]

/-- The digits of base ten are the decimal ones. -/
theorem isDigit_of_isDigitOf {c : Char} (h : isDigitOf 10 c = true) : c.isDigit = true := by
  rw [isDigitOf, digitValue?] at h
  split_ifs at h with decimal
  · simpa [Char.isDigit, Char.le_def] using decimal
  · rw [Option.filter_some, if_neg (by simp)] at h
    cases h
  · rw [Option.filter_some, if_neg (by simp)] at h
    cases h
  · cases h

theorem readDigitsFrom?_of_digits {digits : List Char} (h : ∀ c ∈ digits, c.isDigit = true)
    (acc : ℕ) :
    readDigitsFrom? 10 acc digits = some (Nat.ofDigitChars 10 digits acc) := by
  induction digits generalizing acc with
  | nil => rfl
  | cons c digits ih =>
    obtain ⟨first, others⟩ := List.forall_mem_cons.1 h
    rw [readDigitsFrom?, digitValue?_of_isDigit first, Nat.mul_comm acc 10]
    exact ih others _

theorem readDigits?_of_digits {digits : List Char} (hne : digits ≠ [])
    (h : ∀ c ∈ digits, c.isDigit = true) :
    readDigits? 10 digits = some (Nat.ofDigitChars 10 digits 0) := by
  have given : digits.isEmpty = false := by
    simpa using hne
  rw [readDigits?, given, if_neg Bool.false_ne_true, readDigitsFrom?_of_digits h]

/-! ## Written numbers -/

theorem toList_writeNat (n : ℕ) : (writeNat n).toList = Nat.toDigits 10 n :=
  String.toList_ofList

theorem isDigit_of_mem_writeNat {n : ℕ} {c : Char} (h : c ∈ (writeNat n).toList) :
    c.isDigit = true := by
  rw [toList_writeNat] at h
  exact Nat.isDigit_of_mem_toDigits (by decide) (by decide) h

theorem writeNat_ne_nil (n : ℕ) : (writeNat n).toList ≠ [] := by
  rw [toList_writeNat]
  exact Nat.toDigits_ne_nil

/-- The text of a number is read as that number. -/
theorem readDigits?_writeNat (n : ℕ) : readDigits? 10 (writeNat n).toList = some n := by
  rw [readDigits?_of_digits (writeNat_ne_nil n) fun _ => isDigit_of_mem_writeNat,
    toList_writeNat, Nat.ofDigitChars_toDigits (by decide) (by decide)]

/-! ## Numerals without a sign -/

/-- A numeral without a sign is read as the number that it denotes. -/
theorem readInt?_of_digits {digits : List Char} (h : ∀ c ∈ digits, c.isDigit = true) {n : ℕ}
    (hn : readDigits? 10 digits = some n) : readInt? digits = some (n : Int) := by
  unfold readInt? readUnsigned?
  split
  · exact absurd (h '-' List.mem_cons_self) (by decide)
  · split
    · exact absurd (h '+' List.mem_cons_self) (by decide)
    · rw [hn]
      rfl

/-- A numeral without a sign is an integer of 64 bits if it denotes a number below `2 ^ 63`. -/
theorem readInt64?_of_digits {text : String} (h : ∀ c ∈ text.toList, c.isDigit = true) {n : ℕ}
    (hn : readDigits? 10 text.toList = some n) (hlt : n < 0x8000000000000000) :
    readInt64? text = some (n : Int) := by
  have fits : fitsInt64 n = true := by
    simp only [fitsInt64, Bool.and_eq_true, decide_eq_true_eq]
    omega
  rw [readInt64?, readInt?_of_digits h hn, Option.filter_some, if_pos fits]

/-- Digits that denote a number are digits. -/
theorem isDigitOf_of_readDigitsFrom? {base : ℕ} {digits : List Char} {acc : ℕ}
    (h : (readDigitsFrom? base acc digits).isSome = true) :
    ∀ c ∈ digits, isDigitOf base c = true := by
  induction digits generalizing acc with
  | nil => exact fun _ hc => absurd hc List.not_mem_nil
  | cons c digits ih =>
    cases hc : digitValue? base c with
    | none => simp [readDigitsFrom?, hc] at h
    | some value =>
      simp only [readDigitsFrom?, hc] at h
      exact List.forall_mem_cons.2 ⟨Option.isSome_iff_exists.2 ⟨value, hc⟩, ih h⟩

theorem isDigitOf_of_readDigits? {base : ℕ} {digits : List Char}
    (h : (readDigits? base digits).isSome = true) :
    digits ≠ [] ∧ ∀ c ∈ digits, isDigitOf base c = true := by
  unfold readDigits? at h
  split at h
  · cases h
  · rename_i given
    exact ⟨by simpa using given, isDigitOf_of_readDigitsFrom? h⟩

end Berrify.Text
