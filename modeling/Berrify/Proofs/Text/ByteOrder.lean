import Mathlib.Data.Nat.Notation
import Mathlib.Data.String.Basic
import Mathlib.Tactic.SplitIfs

/-!
# The order of bytes

Texts are compared character by character. In UTF-8 this is the order of their bytes : the bytes of
a smaller character come before those of a larger one at the first byte in which they differ, and
neither are the start of the other (`encode_append_lt`). So a smaller text has the smaller bytes
(`bytes_lt`).
-/

namespace Berrify.Text

/-- The bytes of a text in UTF-8. -/
def bytes (text : String) : List UInt8 :=
  text.toUTF8.data.toList

theorem bytes_eq (text : String) : bytes text = text.toList.flatMap String.utf8EncodeChar := by
  conv_lhs => rw [← String.ofList_toList (s := text)]
  rw [bytes, String.toUTF8_eq_toByteArray]
  exact List.toList_data_toByteArray

/-- Bytes are compared as the numbers they are made of. -/
theorem ofNat_cons_lt {m n : ℕ} (hm : m < 256) (hn : n < 256) {xs ys : List UInt8} :
    UInt8.ofNat m :: xs < UInt8.ofNat n :: ys ↔ m < n ∨ m = n ∧ xs < ys := by
  rw [List.cons_lt_cons_iff, UInt8.lt_iff_toNat_lt, ← UInt8.toNat_inj, UInt8.toNat_ofNat_of_lt' hm,
    UInt8.toNat_ofNat_of_lt' hn]

/-- The digits in base 64 of which the bytes of a character are made. -/
theorem div_base_eq (n : ℕ) : n / 4096 = n / 64 / 64 ∧ n / 262144 = n / 4096 / 64 := by
  rw [Nat.div_div_eq_div_mul, Nat.div_div_eq_div_mul]
  exact ⟨rfl, rfl⟩

theorem encode_append_lt {c d : Char} (h : c < d) (xs ys : List UInt8) :
    String.utf8EncodeChar c ++ xs < String.utf8EncodeChar d ++ ys := by
  have codes : c.val.toNat < d.val.toNat := h
  have small : d.val.toNat < 0x110000 := by
    rcases d.valid with hd | hd
    · omega
    · omega
  unfold String.utf8EncodeChar
  dsimp only
  generalize c.val.toNat = m at *
  generalize d.val.toNat = n at *
  split_ifs <;> simp only [List.cons_append, List.nil_append]
  -- A larger character has no fewer bytes.
  all_goals try omega
  all_goals rw [ofNat_cons_lt (by omega) (by omega)]
  -- Where it has more, the first bytes differ, and else a later one may be the first that does.
  all_goals try omega
  case pos =>
    rw [ofNat_cons_lt (by omega) (by omega)]
    omega
  case pos =>
    rw [ofNat_cons_lt (by omega) (by omega), ofNat_cons_lt (by omega) (by omega)]
    omega
  case neg =>
    have digits := div_base_eq m
    have digits' := div_base_eq n
    have first : m / 262144 ≤ n / 262144 := Nat.div_le_div_right codes.le
    have second : m / 4096 ≤ n / 4096 := Nat.div_le_div_right codes.le
    have third : m / 64 ≤ n / 64 := Nat.div_le_div_right codes.le
    have lead : n / 262144 < 8 := by omega
    rw [Nat.mod_eq_of_lt lead, Nat.mod_eq_of_lt (first.trans_lt lead)]
    rw [ofNat_cons_lt (by omega) (by omega), ofNat_cons_lt (by omega) (by omega),
      ofNat_cons_lt (by omega) (by omega)]
    rcases Nat.lt_or_eq_of_le first with h₁ | h₁
    · omega
    · rcases Nat.lt_or_eq_of_le second with h₂ | h₂
      · omega
      · omega

theorem flatMap_encode_lt {cs ds : List Char} (h : cs < ds) :
    cs.flatMap String.utf8EncodeChar < ds.flatMap String.utf8EncodeChar := by
  induction cs generalizing ds with
  | nil =>
    cases ds with
    | nil => exact absurd h (List.lt_irrefl [])
    | cons d ds =>
      rw [List.flatMap_nil, List.flatMap_cons]
      cases hd : String.utf8EncodeChar d with
      | nil => exact absurd hd String.utf8EncodeChar_ne_nil
      | cons byte others => exact List.nil_lt_cons byte _
  | cons c cs ih =>
    cases ds with
    | nil => cases h
    | cons d ds =>
      rw [List.flatMap_cons, List.flatMap_cons]
      rcases List.cons_lt_cons_iff.1 h with hlt | ⟨rfl, hrest⟩
      · exact encode_append_lt hlt _ _
      · exact List.append_left_lt (ih hrest)

/-- A smaller text has the smaller bytes. -/
theorem bytes_lt {a b : String} (h : a < b) : bytes a < bytes b := by
  rw [bytes_eq, bytes_eq]
  exact flatMap_encode_lt (String.lt_iff_toList_lt.1 h)

end Berrify.Text
