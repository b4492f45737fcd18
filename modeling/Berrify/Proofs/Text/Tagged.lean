import Berrify.Expr.Render
import Mathlib.Data.List.Forall2

/-!
# Text that remembers the calls it was written from

`Tagged` is text in which the stretches are tagged that were written for a call, each with the
address of the call in the tree that the whole text was written from. Without the tags it is plain
text (`Tagged.text`), and `Tagged.count` says how often the call at an address was written.

A tree is written from its parts : the tags of the `i`-th part go one step down (`Tagged.shift`),
and how often each part was written weighs its counts (`weigh`).
-/

namespace Berrify

/-- A place in a tree : which part of it, which part of that part, and so on. -/
abbrev Address := List Nat

/-- Text with the calls that it was written from. -/
inductive Tagged where
  | plain (text : String)
  /-- What was written for the call at an address. -/
  | call (address : Address) (inner : Tagged)
  | append (first second : Tagged)

namespace Tagged

instance : Append Tagged := ⟨append⟩

/-- The text without the tags. -/
def text : Tagged → String
  | plain text => text
  | call _ inner => inner.text
  | append first second => first.text ++ second.text

/-- How often the call at an address was written. -/
def count (a : Address) : Tagged → Nat
  | plain _ => 0
  | call address inner => (if address = a then 1 else 0) + inner.count a
  | append first second => first.count a + second.count a

/-- The text of the `i`-th part of a tree, with the addresses of the whole tree. -/
def shift (i : Nat) : Tagged → Tagged
  | plain text => plain text
  | call address inner => call (i :: address) (inner.shift i)
  | append first second => append (first.shift i) (second.shift i)

@[simp] theorem text_append (m n : Tagged) : (m ++ n).text = m.text ++ n.text := rfl

@[simp] theorem count_plain (a : Address) (text : String) : (plain text).count a = 0 := rfl

@[simp] theorem count_append (a : Address) (m n : Tagged) :
    (m ++ n).count a = m.count a + n.count a := rfl

@[simp] theorem text_shift (i : Nat) (m : Tagged) : (m.shift i).text = m.text := by
  induction m with
  | plain text => rfl
  | call address inner ih => exact ih
  | append first second ih₁ ih₂ => rw [shift, text, ih₁, ih₂, text]

@[simp] theorem count_shift_nil (i : Nat) (m : Tagged) : (m.shift i).count [] = 0 := by
  induction m with
  | plain text => rfl
  | call address inner ih => simp [shift, count, ih]
  | append first second ih₁ ih₂ => rw [shift, count, ih₁, ih₂]

/-- The calls in the `i`-th part have the addresses that begin with `i`. -/
@[simp] theorem count_shift_cons (i j : Nat) (a : Address) (m : Tagged) :
    (m.shift i).count (j :: a) = if j = i then m.count a else 0 := by
  induction m with
  | plain text => simp [shift]
  | call address inner ih =>
    rw [shift, count, ih, count]
    by_cases h : j = i
    · simp [h]
    · simp [h, Ne.symm h]
  | append first second ih₁ ih₂ =>
    rw [shift, count, ih₁, ih₂, count]
    split <;> rfl

/-! ## Lists -/

/-- Tagged texts with a separator between them. -/
def separated (separator : String) : List Tagged → Tagged
  | [] => plain ""
  | [m] => m
  | m :: n :: rest => m ++ plain separator ++ separated separator (n :: rest)

/-- How often the call at an address was written in all of some texts. -/
def countAll (a : Address) : List Tagged → Nat
  | [] => 0
  | m :: rest => m.count a + countAll a rest

@[simp] theorem countAll_nil (a : Address) : countAll a [] = 0 := rfl

@[simp] theorem countAll_cons (a : Address) (m : Tagged) (rest : List Tagged) :
    countAll a (m :: rest) = m.count a + countAll a rest := rfl

@[simp] theorem count_separated (a : Address) (separator : String) (ms : List Tagged) :
    (Tagged.separated separator ms).count a = countAll a ms := by
  induction ms with
  | nil => rfl
  | cons m ms ih =>
    cases ms with
    | nil => simp [separated]
    | cons n rest => simp [separated, ih]

/-- Tagged text in parentheses. -/
def parenthesize (m : Tagged) : Tagged :=
  plain "(" ++ m ++ plain ")"

@[simp] theorem count_parenthesize (a : Address) (m : Tagged) :
    m.parenthesize.count a = m.count a := by
  simp [parenthesize]

/-! ## Stretches -/

/-- A property of the address and the text of every stretch that was written for a call. -/
def Stretches (p : Address → String → Prop) : Tagged → Prop
  | plain _ => True
  | call address inner => p address inner.text ∧ inner.Stretches p
  | append first second => first.Stretches p ∧ second.Stretches p

/-- A text with tags, whose stretches have a property. -/
structure Spells (p : Address → String → Prop) (m : Tagged) (text : String) : Prop where
  text : m.text = text
  stretches : m.Stretches p

namespace Spells

variable {p : Address → String → Prop} {m n : Tagged} {s t : String}

theorem plain (text : String) : Spells p (.plain text) text :=
  ⟨rfl, trivial⟩

theorem append (hm : Spells p m s) (hn : Spells p n t) : Spells p (m ++ n) (s ++ t) :=
  ⟨by rw [text_append, hm.text, hn.text], hm.stretches, hn.stretches⟩

theorem call {a : Address} (ha : p a s) (hm : Spells p m s) : Spells p (.call a m) s :=
  ⟨hm.text, by rwa [hm.text], hm.stretches⟩

theorem shift {i : Nat} (hm : Spells (fun a => p (i :: a)) m s) : Spells p (m.shift i) s := by
  refine ⟨by rw [text_shift, hm.text], ?_⟩
  have stretches := hm.stretches
  clear hm
  induction m with
  | plain text => trivial
  | call address inner ih => exact ⟨by rw [text_shift]; exact stretches.1, ih stretches.2⟩
  | append first second ih₁ ih₂ => exact ⟨ih₁ stretches.1, ih₂ stretches.2⟩

theorem mono {q : Address → String → Prop} (h : ∀ a text, p a text → q a text)
    (hm : Spells p m s) : Spells q m s := by
  refine ⟨hm.text, ?_⟩
  have stretches := hm.stretches
  clear hm
  induction m with
  | plain text => trivial
  | call address inner ih => exact ⟨h _ _ stretches.1, ih stretches.2⟩
  | append first second ih₁ ih₂ => exact ⟨ih₁ stretches.1, ih₂ stretches.2⟩

theorem parenthesize (hm : Spells p m s) : Spells p m.parenthesize (Berrify.parenthesize s) :=
  ((plain "(").append hm).append (plain ")")

theorem separated {separator : String} {ms : List Tagged} {texts : List String}
    (h : List.Forall₂ (Spells p) ms texts) :
    Spells p (.separated separator ms) (Berrify.separated separator texts) := by
  induction h with
  | nil => exact plain ""
  | @cons m text ms texts hm hms ih =>
    cases hms with
    | nil => simpa [Tagged.separated, Berrify.separated, String.intercalate_singleton] using hm
    | cons hn hrest =>
      rw [Tagged.separated, Berrify.separated, String.intercalate_cons_cons]
      exact (hm.append (plain separator)).append ih

end Spells

end Tagged

/-! ## Weights -/

/-- The sum of what a function gives from `n` on, each weighed with how often it counts. -/
def weigh (c : Nat → Nat) : Nat → List Nat → Nat
  | _, [] => 0
  | n, factor :: rest => factor * c n + weigh c (n + 1) rest

@[simp] theorem weigh_nil (c : Nat → Nat) (n : Nat) : weigh c n [] = 0 := rfl

@[simp] theorem weigh_cons (c : Nat → Nat) (n factor : Nat) (rest : List Nat) :
    weigh c n (factor :: rest) = factor * c n + weigh c (n + 1) rest := rfl

theorem weigh_append (c : Nat → Nat) (n : Nat) (first second : List Nat) :
    weigh c n (first ++ second) = weigh c n first + weigh c (n + first.length) second := by
  induction first generalizing n with
  | nil => simp
  | cons factor first ih =>
    have behind : n + 1 + first.length = n + (factor :: first).length := by
      rw [List.length_cons]
      omega
    rw [List.cons_append, weigh_cons, ih, weigh_cons, behind, Nat.add_assoc]

@[simp] theorem weigh_zeros (c : Nat → Nat) (n k : Nat) : weigh c n (List.replicate k 0) = 0 := by
  induction k generalizing n with
  | zero => rfl
  | succ k ih => simp [List.replicate_succ, ih]

@[simp] theorem weigh_zero (n : Nat) (factors : List Nat) : weigh (fun _ => 0) n factors = 0 := by
  induction factors generalizing n with
  | nil => rfl
  | cons factor rest ih => simp [ih]

/-- Of a function that is zero everywhere else, only one weight counts. -/
theorem weigh_single {c : Nat → Nat} {i : Nat} (h : ∀ j, j ≠ i → c j = 0) (n : Nat)
    (factors : List Nat) :
    weigh c n factors = if n ≤ i then factors.getD (i - n) 0 * c i else 0 := by
  induction factors generalizing n with
  | nil => simp
  | cons factor rest ih =>
    rw [weigh_cons, ih]
    rcases Nat.lt_trichotomy n i with hlt | rfl | hgt
    · have step : i - n = (i - (n + 1)) + 1 := by omega
      rw [h n (by omega), if_pos (by omega), if_pos (by omega), step]
      simp
    · rw [if_neg (by omega), if_pos (by omega)]
      simp
    · rw [h n (by omega), if_neg (by omega), if_neg (by omega), Nat.mul_zero]

end Berrify
