import Berrify.Text.Identifier
import Mathlib.Data.List.TakeWhile

/-!
# Words at the front of a text

`isWord` says that a text is a name : a character that may start one and then characters that may
stand in one. `leadWord` is the longest run of such characters at the front of a text. What is put
behind a text does not change its lead word if it cannot prolong it (`Apart`,
`leadWord_append`).
-/

namespace Berrify.Text

open Identifier

/-- Whether a text is a name. -/
def isWord (text : String) : Bool :=
  match text.toList with
  | c :: rest => isNameStart c && rest.all isNamePart
  | [] => false

theorem isNamePart_of_isNameStart {c : Char} (h : isNameStart c = true) : isNamePart c = true := by
  simp [isNamePart, h]

theorem not_isDigit_of_isNameStart {c : Char} (h : isNameStart c = true) : c.isDigit = false := by
  rw [Bool.eq_false_iff]
  intro hd
  simp only [Char.isDigit, Bool.and_eq_true, decide_eq_true_eq] at hd
  have lo : 48 ≤ c.val.toNat := hd.1
  have hi : c.val.toNat ≤ 57 := hd.2
  simp only [isNameStart, Bool.or_eq_true, Bool.and_eq_true, decide_eq_true_eq, beq_iff_eq] at h
  rcases h with (h | h) | h
  · rcases Bool.or_eq_true_iff.1 (h : (c.isUpper || c.isLower) = true) with h | h
    · have : 65 ≤ c.val.toNat := (of_decide_eq_true h).1
      omega
    · have : 97 ≤ c.val.toNat := of_decide_eq_true (Bool.and_eq_true_iff.1 h).1
      omega
  · subst h
    exact absurd hi (by decide)
  · have : 128 ≤ c.val.toNat := h.1
    omega

theorem all_isNamePart_of_isWord {text : String} (h : isWord text = true) :
    ∀ c ∈ text.toList, isNamePart c = true := by
  unfold isWord at h
  cases ht : text.toList with
  | nil => simp
  | cons c rest =>
    rw [ht, Bool.and_eq_true, List.all_eq_true] at h
    intro d hd
    rcases List.mem_cons.1 hd with rfl | hd
    · exact isNamePart_of_isNameStart h.1
    · exact h.2 d hd

theorem toList_ne_nil_of_isWord {text : String} (h : isWord text = true) : text.toList ≠ [] := by
  intro ht
  simp [isWord, ht] at h

/-- Whether a text cannot prolong a name that it stands behind. -/
def Apart (text : List Char) : Prop :=
  ∀ c ∈ text.head?, isNamePart c = false

theorem apart_nil : Apart [] := by
  simp [Apart]

theorem apart_cons {c : Char} {rest : List Char} (h : isNamePart c = false) :
    Apart (c :: rest) := by
  simpa [Apart] using h

theorem Apart.append {text : List Char} (h : Apart text) (hne : text ≠ []) (rest : List Char) :
    Apart (text ++ rest) := by
  cases text with
  | nil => exact absurd rfl hne
  | cons c more => exact apart_cons (h c rfl)

theorem takeWhile_append_of_apart {rest : List Char} (h : Apart rest) (text : List Char) :
    (text ++ rest).takeWhile isNamePart = text.takeWhile isNamePart := by
  induction text with
  | nil =>
    cases rest with
    | nil => rfl
    | cons c more => simp [h c rfl]
  | cons c text ih =>
    by_cases hc : isNamePart c = true
    · simp [hc, ih]
    · simp [hc]

theorem dropWhile_append_of_apart {text rest : List Char} (hrest : Apart rest)
    (h : ∀ c ∈ text, isNamePart c = true) : (text ++ rest).dropWhile isNamePart = rest := by
  induction text with
  | nil =>
    cases rest with
    | nil => rfl
    | cons c more => simp [hrest c rfl]
  | cons c text ih =>
    rw [List.cons_append, List.dropWhile_cons_of_pos (h c List.mem_cons_self),
      ih fun d hd => h d (List.mem_cons_of_mem c hd)]

/-- The longest run of name characters at the front of a text. -/
def leadWord (text : String) : List Char :=
  text.toList.takeWhile isNamePart

/-- What cannot prolong a name leaves the lead word in front of it alone. -/
theorem leadWord_append {rest : String} (h : Apart rest.toList) (text : String) :
    leadWord (text ++ rest) = leadWord text := by
  rw [leadWord, String.toList_append, takeWhile_append_of_apart h, leadWord]

theorem leadWord_of_isWord {text : String} (h : isWord text = true) :
    leadWord text = text.toList :=
  List.takeWhile_eq_self_iff.2 (all_isNamePart_of_isWord h)

end Berrify.Text
