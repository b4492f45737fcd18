import Berrify.Refusal
import Berrify.Expr.Render
import Berrify.Proofs.Text.Digits
import Berrify.Proofs.Text.Search
import Mathlib.Tactic.SplitIfs

/-!
# Texts without the mark of a line

The mark of a line may come about where texts are put together, although none of them holds it :
with a blank and a parenthesis in front and a blank behind, the word `line` is the mark. A text is
`Quiet` if it holds no mark in such a place either. Quiet texts stay quiet when they are put
together with anything but the letters of the mark between them (`Quiet.between`), and so does a
quoted text whatever it starts and ends with (`quiet_quote`).

`occurrences` counts the places in which a pattern stands. A mark behind a quiet text is the only
one (`occurrences_mark`).
-/

namespace Berrify.Text

open Refusal (lineMark)

/-! ## Marks at a seam -/

/-- The characters of the mark. -/
def mark : List Char :=
  lineMark.toList

theorem mark_eq : mark = [' ', '(', 'l', 'i', 'n', 'e', ' '] := by
  decide

/-- The last character of a text and the first one of another stand side by side in a pattern. -/
def Meet (pattern a b : List Char) : Prop :=
  ∃ x y, a.getLast? = some x ∧ b.head? = some y ∧ [x, y] <:+: pattern

/-- What stands in two texts put together stands in one of them, or they meet in it. -/
theorem infix_or_meet {w a b : List Char} (h : w <:+: a ++ b) :
    w <:+: a ∨ w <:+: b ∨ Meet w a b := by
  rcases List.infix_append_iff_ne_nil.1 h with h | h | ⟨u, v, hu, hv, rfl, hua, hvb⟩
  · exact .inl h
  · exact .inr (.inl h)
  · obtain ⟨u, x, rfl⟩ := List.eq_nil_or_concat u |>.resolve_left hu
    obtain ⟨y, v, rfl⟩ := List.exists_cons_of_ne_nil hv
    refine .inr (.inr ⟨x, y, ?_, ?_, u, v, by simp⟩)
    · obtain ⟨front, rfl⟩ := hua
      simp
    · obtain ⟨rest, rfl⟩ := hvb
      simp

/-- Whether a text starts with a character that is not in a pattern. -/
def startsApart (pattern : List Char) (text : String) : Bool :=
  text.toList.head?.any (!pattern.contains ·)

/-- Whether a text ends in a character that is not in a pattern. -/
def endsApart (pattern : List Char) (text : String) : Bool :=
  text.toList.getLast?.any (!pattern.contains ·)

theorem not_meet_of_endsApart {pattern : List Char} {a : String} (b : String)
    (h : endsApart pattern a = true) : ¬Meet pattern a.toList b.toList := by
  rintro ⟨x, y, hx, -, hxy⟩
  have apart : x ∉ pattern := by simpa [endsApart, hx] using h
  exact apart (hxy.subset List.mem_cons_self)

theorem not_meet_of_startsApart {pattern : List Char} (a : String) {b : String}
    (h : startsApart pattern b = true) : ¬Meet pattern a.toList b.toList := by
  rintro ⟨x, y, -, hy, hxy⟩
  have apart : y ∉ pattern := by simpa [startsApart, hy] using h
  exact apart (hxy.subset (List.mem_cons_of_mem x List.mem_cons_self))

theorem endsApart_append {pattern : List Char} (a : String) {b : String}
    (h : endsApart pattern b = true) : endsApart pattern (a ++ b) = true := by
  obtain ⟨c, hc, hletter⟩ := (Option.any_eq_true _ _).1 h
  refine (Option.any_eq_true _ _).2 ⟨c, ?_, hletter⟩
  rw [String.toList_append, List.getLast?_append, hc, Option.some_or]

/-- A character that is not in the mark keeps what is in front of it from what is behind it. -/
theorem mark_infix_wall {a b : List Char} {c : Char} (hc : c ∉ mark) :
    mark <:+: a ++ c :: b ↔ mark <:+: a ∨ mark <:+: b := by
  refine ⟨fun h => ?_, fun h => ?_⟩
  · rcases infix_or_meet h with h | h | ⟨x, y, -, hy, hm⟩
    · exact .inl h
    · rcases List.infix_cons_iff.1 h with h | h
      · rw [mark_eq] at h hc
        exact absurd ((List.cons_prefix_cons.1 h).1 ▸ List.mem_cons_self) hc
      · exact .inr h
    · cases hy
      exact absurd (hm.subset (by simp)) hc
  · rcases h with h | h
    · exact List.infix_append_of_infix_left h
    · exact List.infix_append_of_infix_right (List.infix_cons h)

/-! ## Quiet texts -/

/-- A text that does not hold the mark. -/
def Unmarked (text : String) : Prop :=
  occursIn lineMark text = false

instance (text : String) : Decidable (Unmarked text) :=
  inferInstanceAs (Decidable (occursIn lineMark text = false))

theorem unmarked_iff {text : String} : Unmarked text ↔ ¬mark <:+: text.toList :=
  occursIn_eq_false_iff

/-- A text that does not hold the mark with a blank behind it, and a blank or an opened parenthesis
in front of it, either. -/
structure Quiet (text : String) : Prop where
  beside : Unmarked (" " ++ text ++ " ")
  inside : Unmarked (" (" ++ text ++ " ")

theorem quiet_iff {text : String} :
    Quiet text ↔ ¬mark <:+: ' ' :: text.toList ++ [' '] ∧
      ¬mark <:+: ' ' :: '(' :: text.toList ++ [' '] := by
  refine ⟨fun h => ⟨?_, ?_⟩, fun h => ⟨unmarked_iff.2 ?_, unmarked_iff.2 ?_⟩⟩
  · simpa using unmarked_iff.1 h.beside
  · simpa using unmarked_iff.1 h.inside
  · simpa using h.1
  · simpa using h.2

/-- Whether the text of some characters is quiet. -/
def isQuiet (cs : List Char) : Bool :=
  !occursInChars mark (' ' :: cs ++ [' ']) && !occursInChars mark (' ' :: '(' :: cs ++ [' '])

theorem quiet_iff_isQuiet {text : String} : Quiet text ↔ isQuiet text.toList = true := by
  rw [quiet_iff, ← occursInChars_iff, ← occursInChars_iff, isQuiet]
  simp

/-- A literal is taken apart by unification, which is faster than by its bytes. -/
theorem quiet_ofList {cs : List Char} (h : isQuiet cs = true) : Quiet (.ofList cs) := by
  rwa [quiet_iff_isQuiet, String.toList_ofList]

instance (text : String) : Decidable (Quiet text) :=
  decidable_of_iff _ quiet_iff_isQuiet.symm

theorem Quiet.unmarked {text : String} (h : Quiet text) : Unmarked text := by
  refine unmarked_iff.2 fun hm => (quiet_iff.1 h).1 (List.infix_cons ?_)
  exact List.infix_append_of_infix_left hm

/-- The ways to part the mark : behind its first blank, behind its parenthesis, in front of its last
blank, or inside of its word. -/
theorem mark_parted {u v : List Char} (h : mark = u ++ v) (hu : u ≠ []) (hv : v ≠ []) :
    u = [' '] ∨ u = [' ', '('] ∨ v = [' '] ∨ Meet "line".toList u v := by
  rw [mark_eq] at h
  rcases u with _ | ⟨a, _ | ⟨b, _ | ⟨c, _ | ⟨d, _ | ⟨e, _ | ⟨f, u⟩⟩⟩⟩⟩⟩ <;>
    simp only [List.nil_append, List.cons_append, List.cons.injEq] at h
  · exact absurd rfl hu
  · obtain ⟨rfl, -⟩ := h
    exact .inl rfl
  · obtain ⟨rfl, rfl, -⟩ := h
    exact .inr (.inl rfl)
  · obtain ⟨rfl, rfl, rfl, rfl⟩ := h
    exact .inr (.inr (.inr ⟨'l', 'i', rfl, rfl, by decide⟩))
  · obtain ⟨rfl, rfl, rfl, rfl, rfl⟩ := h
    exact .inr (.inr (.inr ⟨'i', 'n', rfl, rfl, by decide⟩))
  · obtain ⟨rfl, rfl, rfl, rfl, rfl, rfl⟩ := h
    exact .inr (.inr (.inr ⟨'n', 'e', rfl, rfl, by decide⟩))
  · rcases u with _ | ⟨g, u⟩
    · exact .inr (.inr (.inl (by simpa using h.2.2.2.2.2.2.symm)))
    · simp_all

/-- Quiet texts may be put together unless they meet in the word of the mark. -/
theorem Quiet.append {a b : String} (ha : Quiet a) (hb : Quiet b)
    (h : ¬Meet "line".toList a.toList b.toList) : Quiet (a ++ b) := by
  obtain ⟨beside, inside⟩ := quiet_iff.1 ha
  obtain ⟨beside', inside'⟩ := quiet_iff.1 hb
  have join (start : List Char) (hs : ¬mark <:+: start ++ a.toList ++ [' '])
      (hletter : ∀ x ∈ start, x ∉ "line".toList) :
      ¬mark <:+: start ++ a.toList ++ (b.toList ++ [' ']) := by
    intro hm
    rcases List.infix_append_iff_ne_nil.1 hm with hm | hm | ⟨u, v, hu, hv, he, hua, hvb⟩
    · exact hs (List.infix_append_of_infix_left hm)
    · exact beside' (List.infix_cons hm)
    · rcases mark_parted he hu hv with rfl | rfl | rfl | hmeet
      · rw [he] at beside'
        exact beside' ((List.prefix_append_right_inj [' ']).2 hvb).isInfix
      · rw [he] at inside'
        exact inside' ((List.prefix_append_right_inj [' ', '(']).2 hvb).isInfix
      · obtain ⟨front, hfront⟩ := hua
        rw [he, ← hfront] at hs
        exact hs ⟨front, [], by simp⟩
      · obtain ⟨x, y, hx, hy, hxy⟩ := hmeet
        have last : (start ++ a.toList).getLast? = some x := by
          obtain ⟨front, hfront⟩ := hua
          rw [← hfront, List.getLast?_append, hx, Option.some_or]
        have first : (b.toList ++ [' ']).head? = some y := by
          obtain ⟨rest, hrest⟩ := hvb
          rw [← hrest, List.head?_append, hy, Option.some_or]
        rw [List.getLast?_append, Option.or_eq_some_iff] at last
        rw [List.head?_append, Option.or_eq_some_iff] at first
        -- What is around the two texts is not in the word.
        rcases last with last | ⟨-, last⟩
        · rcases first with first | ⟨-, first⟩
          · exact h ⟨x, y, last, first, hxy⟩
          · cases first
            exact absurd (hxy.subset (by simp)) (by decide : ' ' ∉ "line".toList)
        · exact hletter x (List.mem_of_getLast? last) (hxy.subset (by simp))
  refine quiet_iff.2 ⟨?_, ?_⟩
  · simpa using join [' '] beside (by simp)
  · simpa using join [' ', '('] inside (by simp)

/-- Whether a text may stand between quiet texts. -/
def isGap (text : String) : Bool :=
  decide (Quiet text) && startsApart "line".toList text && endsApart "line".toList text

/-- Quiet texts with a gap between them. -/
theorem Quiet.between {a gap b : String} (ha : Quiet a) (hg : isGap gap = true) (hb : Quiet b) :
    Quiet (a ++ gap ++ b) := by
  simp only [isGap, Bool.and_eq_true, decide_eq_true_eq] at hg
  obtain ⟨⟨quiet, starts⟩, ends⟩ := hg
  refine (ha.append quiet (not_meet_of_startsApart a starts)).append hb ?_
  exact not_meet_of_endsApart b (endsApart_append a ends)

theorem quiet_empty : Quiet "" := by
  decide

theorem Quiet.append_gap {a gap : String} (ha : Quiet a) (hg : isGap gap = true) :
    Quiet (a ++ gap) := by
  simpa using ha.between hg quiet_empty

theorem Quiet.gap_append {gap b : String} (hg : isGap gap = true) (hb : Quiet b) :
    Quiet (gap ++ b) := by
  simpa using quiet_empty.between hg hb

theorem Quiet.parenthesize {text : String} (h : Quiet text) : Quiet (parenthesize text) :=
  (Quiet.gap_append (by decide) h).append_gap (by decide)

theorem quiet_separated {separator : String} (hs : isGap separator = true) :
    ∀ {texts : List String}, (∀ text ∈ texts, Quiet text) → Quiet (separated separator texts)
  | [], _ => by simpa [separated] using quiet_empty
  | [text], h => by simpa [separated] using h text
  | text :: next :: texts, h => by
    have later := quiet_separated hs fun t ht => h t (List.mem_cons_of_mem text ht)
    rw [separated, String.intercalate_cons_cons]
    exact (h text List.mem_cons_self).between hs later

theorem quiet_commaSeparated {texts : List String} (h : ∀ text ∈ texts, Quiet text) :
    Quiet (commaSeparated texts) :=
  quiet_separated (by decide) h

/-- A text without the first letter of the word in the mark is quiet. -/
theorem quiet_of_not_mem {text : String} (h : 'l' ∉ text.toList) : Quiet text := by
  have key (front : List Char) (hf : 'l' ∉ front) : ¬mark <:+: front ++ text.toList ++ [' '] := by
    intro hm
    have letter : 'l' ∈ front ++ text.toList ++ [' '] := hm.subset (by decide)
    simp_all
  exact quiet_iff.2 ⟨key [' '] (by decide), key [' ', '('] (by decide)⟩

/-! ## Literals -/

theorem not_mem_writeNat {c : Char} (h : c.isDigit = false) (n : Nat) :
    c ∉ (writeNat n).toList := by
  intro hm
  have digit := isDigit_of_mem_writeNat hm
  rw [h] at digit
  cases digit

theorem quiet_writeInt (value : Int) : Quiet (writeInt value) := by
  have digits (n : Nat) : Quiet (writeNat n) :=
    quiet_of_not_mem (not_mem_writeNat (by decide) n)
  unfold writeInt
  split
  · exact Quiet.gap_append (by decide) (digits _)
  · exact digits _

theorem hexDigitUpper_ne_letter : ∀ value < 16, 'l' ≠ hexDigitUpper value := by
  decide

theorem quiet_writeBytes (bytes : List UInt8) : Quiet (writeBytes bytes) := by
  have digits : Quiet (.ofList (bytes.flatMap hexByte)) := by
    refine quiet_of_not_mem fun hm => ?_
    rw [String.toList_ofList] at hm
    obtain ⟨byte, -, hm⟩ := List.mem_flatMap.1 hm
    have small := byte.toNat_lt
    have high := hexDigitUpper_ne_letter (byte.toNat / 16) (by omega)
    have low := hexDigitUpper_ne_letter (byte.toNat % 16) (by omega)
    simp [hexByte, high, low] at hm
  have word : Quiet "bytes" := by decide
  exact (word.between (by decide : isGap "('" = true) digits).append_gap (by decide)

theorem hexDigit_ne_blank : ∀ value < 16, hexDigit value ≠ ' ' := by
  decide

/-- A character inside a quoted literal is written as itself, or behind a backslash and without a
blank. -/
theorem quoteChar_cases (c : Char) :
    quoteChar c = [c] ∨ ∃ escape, quoteChar c = '\\' :: escape ∧ ' ' ∉ escape := by
  unfold quoteChar
  split_ifs with h₁ h₂ h₃ h₄ h₅ h₆
  · exact .inr ⟨_, rfl, by decide⟩
  · exact .inr ⟨_, rfl, by decide⟩
  · exact .inr ⟨_, rfl, by decide⟩
  · exact .inr ⟨_, rfl, by decide⟩
  · exact .inr ⟨_, rfl, by decide⟩
  · have high := hexDigit_ne_blank (c.toNat / 16) (by omega)
    have low := hexDigit_ne_blank (c.toNat % 16) (by omega)
    exact .inr ⟨_, rfl, by simp [high.symm, low.symm]⟩
  · exact .inl rfl

theorem prefix_of_prefix_quoteBody {w text : List Char} (hw : '\\' ∉ w)
    (h : w <+: quoteBody text) : w <+: text := by
  induction w generalizing text with
  | nil => exact List.nil_prefix
  | cons d w ih =>
    obtain ⟨hd, hw⟩ : '\\' ≠ d ∧ '\\' ∉ w := by simpa using hw
    cases text with
    | nil => exact h
    | cons c text =>
      rw [quoteBody, List.flatMap_cons] at h
      rcases quoteChar_cases c with hc | ⟨escape, hc, -⟩
      · rw [hc, List.singleton_append, List.cons_prefix_cons] at h
        exact List.cons_prefix_cons.2 ⟨h.1, ih hw h.2⟩
      · rw [hc, List.cons_append, List.cons_prefix_cons] at h
        exact absurd h.1.symm hd

/-- The mark starts with a blank, so it does not start in a text without blanks. -/
theorem mark_infix_of_append {a b : List Char} (ha : ' ' ∉ a) (h : mark <:+: a ++ b) :
    mark <:+: b := by
  induction a with
  | nil => exact h
  | cons c a ih =>
    obtain ⟨hc, ha⟩ : ' ' ≠ c ∧ ' ' ∉ a := by simpa using ha
    rcases List.infix_cons_iff.1 h with h | h
    · have first := h.head (by decide)
      exact absurd (by simpa [mark_eq] using first) hc
    · exact ih ha h

theorem mark_infix_of_quoteBody {text : List Char} (h : mark <:+: quoteBody text) :
    mark <:+: text := by
  induction text with
  | nil => exact h
  | cons c text ih =>
    rw [quoteBody, List.flatMap_cons] at h
    rcases quoteChar_cases c with hc | ⟨escape, hc, hblank⟩
    · rw [hc, List.singleton_append] at h
      rcases List.infix_cons_iff.1 h with h | h
      · have whole : mark <+: quoteBody (c :: text) := by
          rwa [quoteBody, List.flatMap_cons, hc, List.singleton_append]
        exact (prefix_of_prefix_quoteBody (by decide) whole).isInfix
      · exact List.infix_cons (ih h)
    · rw [hc] at h
      exact List.infix_cons (ih (mark_infix_of_append (by simpa using hblank) h))

theorem quiet_quote {text : String} (h : Unmarked text) : Quiet (quote text) := by
  have body : ¬mark <:+: quoteBody text.toList :=
    fun hm => unmarked_iff.1 h (mark_infix_of_quoteBody hm)
  have walls {front : List Char} (hf : ¬mark <:+: front) :
      ¬mark <:+: front ++ '\x27' :: (quoteBody text.toList ++ '\x27' :: [' ']) := by
    rw [mark_infix_wall (by decide), mark_infix_wall (by decide)]
    exact not_or.2 ⟨hf, not_or.2 ⟨body, by decide⟩⟩
  refine quiet_iff.2 ⟨?_, ?_⟩
  · simpa [quote] using walls (by decide : ¬mark <:+: [' '])
  · simpa [quote] using walls (by decide : ¬mark <:+: [' ', '('])

/-! ## Counting -/

/-- The number of places in which a pattern stands in a text. -/
def occurrences (pattern text : String) : Nat :=
  text.toList.tails.countP pattern.toList.isPrefixOf

theorem countP_tails_eq_zero {w text : List Char} (h : ¬w <:+: text) :
    text.tails.countP w.isPrefixOf = 0 := by
  refine List.countP_eq_zero.2 fun rest hm hp => h ?_
  exact (List.isPrefixOf_iff_prefix.1 hp).isInfix.trans ((List.mem_tails _ _).1 hm).isInfix

/-- A mark that starts in front of a blank ends there. -/
theorem mark_prefix_blank {c : Char} {front rest : List Char}
    (h : mark <+: c :: front ++ ' ' :: rest) : mark <+: c :: front ++ [' '] := by
  rcases List.prefix_or_prefix_of_prefix h (List.prefix_append (c :: front) _) with hm | ⟨v, hv⟩
  · exact hm.trans (List.prefix_append _ _)
  · rw [← hv] at h ⊢
    rw [List.prefix_append_right_inj] at h ⊢
    rcases List.prefix_cons_iff.1 h with rfl | ⟨v, rfl, -⟩
    · exact List.nil_prefix
    · have letters : mark = ' ' :: ("(line".toList ++ ' ' :: []) := by decide
      rw [letters, List.cons_append, List.cons.injEq] at hv
      have tails := hv.2.symm
      obtain ⟨-, -, rfl⟩ := (List.append_cons_inj_of_notMem (by decide) (by decide)).1 tails
      exact List.prefix_refl _

/-- A mark behind a text that is quiet, and in front of one without blanks, is the only one. -/
theorem occurrences_mark {front back : String} (hf : Quiet front) (hb : ' ' ∉ back.toList) :
    occurrences lineMark (front ++ lineMark ++ back) = 1 := by
  have later : ¬mark <:+: "(line ".toList ++ back.toList := by
    intro hm
    have behind : mark <:+: ' ' :: back.toList :=
      mark_infix_of_append (by decide : ' ' ∉ "(line".toList) hm
    rcases List.infix_cons_iff.1 behind with h | h
    · exact hb ((List.cons_prefix_cons.1 h).2.subset (by decide))
    · exact hb (h.subset (by decide))
  have before : ¬mark <:+: front.toList ++ [' '] := fun hm =>
    (quiet_iff.1 hf).1 (List.infix_cons hm)
  rw [occurrences, String.toList_append, String.toList_append]
  change ((front.toList ++ mark ++ back.toList).tails).countP mark.isPrefixOf = 1
  generalize front.toList = cs at before ⊢
  induction cs with
  | nil =>
    have here : mark.isPrefixOf (mark ++ back.toList) = true :=
      List.isPrefixOf_iff_prefix.2 (List.prefix_append _ _)
    have split : (mark ++ back.toList).tails =
        (mark ++ back.toList) :: ("(line ".toList ++ back.toList).tails := rfl
    rw [List.nil_append, split, List.countP_cons_of_pos here, countP_tails_eq_zero later]
  | cons c cs ih =>
    have notHere : ¬mark.isPrefixOf (c :: cs ++ mark ++ back.toList) = true := by
      intro hp
      have shape : c :: cs ++ mark ++ back.toList =
          c :: cs ++ ' ' :: ("(line ".toList ++ back.toList) := by
        simp [mark_eq]
      rw [shape, List.isPrefixOf_iff_prefix] at hp
      exact before (mark_prefix_blank hp).isInfix
    have split : (c :: cs ++ mark ++ back.toList).tails =
        (c :: cs ++ mark ++ back.toList) :: (cs ++ mark ++ back.toList).tails := rfl
    rw [split, List.countP_cons_of_neg notHere]
    exact ih fun hm => before (List.infix_cons hm)

end Berrify.Text
