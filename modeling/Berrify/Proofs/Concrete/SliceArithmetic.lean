import Berrify.Proofs.Concrete.Shape

/-!
# Slice bounds as words

The value of a slice bound is an integer of 64 bits : a numeral that fits, below any number of minus
signs, each of which is a negation (`Expr.negations`); and one is taken off an upper bound. With
words of 64 bits these operations could wrap around (`Expr.wordValue?`), at the least number of all.
In scripts that are read they do not : an integer that is read has no sign, so all values and their
negations lie strictly between the bounds `-2 ^ 63` and `2 ^ 63` (`Expr.WellShaped.natAbs_lt`), and
words give what integers do (`slice_arithmetic_fits`).
-/

namespace Berrify

open Text

/-- The value of an integer that is read without a sign is not negative. -/
theorem IsIntText.natAbs_lt {text : String} (h : IsIntText text) {n : Int}
    (hn : readInt64? text = some n) : n.natAbs < 0x8000000000000000 := by
  obtain ⟨hread, hfits⟩ := Option.filter_eq_some_iff.1 hn
  have nonneg : 0 ≤ n := by
    unfold readInt? at hread
    split at hread
    · rename_i digits htext
      exact absurd (htext ▸ List.mem_cons_self) h.noSign.1
    · obtain ⟨m, -, rfl⟩ := Option.map_eq_some_iff.1 hread
      exact Int.natCast_nonneg m
  simp only [fitsInt64, Bool.and_eq_true, decide_eq_true_eq] at hfits
  omega

theorem fitsInt64_of_natAbs_lt {n : Int} (h : n.natAbs < 0x8000000000000000) :
    fitsInt64 n = true := by
  simp only [fitsInt64, Bool.and_eq_true, decide_eq_true_eq]
  omega

namespace Expr

/-! ## Bounds -/

/-- The results of the negations by which the value of a bound is taken, the innermost first. -/
def negations : Expr → List Int
  | .unary .neg operand => operand.negations ++ (operand.integerValue?.map (- ·)).toList
  | _ => []

/-- The value of a bound taken with words of 64 bits, whose negation wraps around. -/
def wordValue? : Expr → Option Int64
  | .constant (.int text) => (readInt64? text).map Int64.ofInt
  | .unary .neg operand => operand.wordValue?.map (- ·)
  | _ => none

namespace WellShaped

variable {place : Place} {e : Expr}

/-- The values of bounds lie in a range that is symmetric, so negation does not leave it. -/
theorem natAbs_lt (h : WellShaped place e) {n : Int} (hn : e.integerValue? = some n) :
    n.natAbs < 0x8000000000000000 := by
  fun_induction integerValue? e generalizing place n with
  | case1 text => exact IsIntText.natAbs_lt h.here hn
  | case2 operand ih =>
    obtain ⟨m, hm, rfl⟩ := Option.map_eq_some_iff.1 hn
    have inner : WellShaped .plain operand := h.inside List.mem_cons_self
    rw [Int.natAbs_neg]
    exact ih inner hm
  | case3 => cases hn

theorem natAbs_negation_lt (h : WellShaped place e) {n : Int} (hn : n ∈ e.negations) :
    n.natAbs < 0x8000000000000000 := by
  fun_induction negations e generalizing place with
  | case1 operand ih =>
    have inner : WellShaped .plain operand := h.inside List.mem_cons_self
    rcases List.mem_append.1 hn with hn | hn
    · exact ih inner hn
    · obtain ⟨m, hm, rfl⟩ := Option.map_eq_some_iff.1 (Option.mem_toList.1 hn)
      rw [Int.natAbs_neg]
      exact inner.natAbs_lt hm
  | case2 => cases hn

end WellShaped

/-- Words are integers up to wrapping around. -/
theorem wordValue?_eq (e : Expr) : e.wordValue? = e.integerValue?.map Int64.ofInt := by
  fun_induction wordValue? e with
  | case1 text => rw [integerValue?]
  | case2 operand ih =>
    rw [ih, integerValue?, Option.map_map, Option.map_map]
    exact congrArg (Option.map · _) (funext fun n => (Int64.ofInt_neg n).symm)
  | case3 e hconstant hunary =>
    rw [integerValue?, Option.map_none]
    · exact hconstant
    · exact hunary

theorem toInt_ofInt_of_natAbs_lt {n : Int} (h : n.natAbs < 0x8000000000000000) :
    (Int64.ofInt n).toInt = n :=
  Int64.toInt_ofInt_of_le (by omega) (by omega)

/-! ## Slices -/

/-- Nothing that is done with the bounds of a slice leaves the integers of 64 bits, so that words
give what integers do. -/
structure SliceFits (lower upper : Option Expr) : Prop where
  negations : ∀ bound ∈ lower.toList ++ upper.toList, ∀ n ∈ bound.negations, fitsInt64 n = true
  /-- One taken off the upper bound. -/
  predecessor : ∀ bound ∈ upper, ∀ n, bound.integerValue? = some n → fitsInt64 (n - 1) = true
  words : ∀ bound ∈ lower.toList ++ upper.toList,
    bound.wordValue?.map Int64.toInt = bound.integerValue?
  wordPredecessor : ∀ bound ∈ upper, ∀ word, bound.wordValue? = some word →
    bound.integerValue? = some word.toInt ∧ (word - 1).toInt = word.toInt - 1

theorem sliceFits_of_wellShaped {lower upper : Option Expr}
    (h : ∀ bound ∈ lower.toList ++ upper.toList, ∃ place, WellShaped place bound) :
    SliceFits lower upper := by
  have ofUpper : ∀ bound ∈ upper, bound ∈ lower.toList ++ upper.toList := fun bound hb =>
    List.mem_append_right _ (Option.mem_toList.2 hb)
  have words : ∀ bound ∈ lower.toList ++ upper.toList,
      bound.wordValue?.map Int64.toInt = bound.integerValue? := fun bound hb => by
    obtain ⟨place, shape⟩ := h bound hb
    rw [wordValue?_eq, Option.map_map]
    cases hv : bound.integerValue? with
    | none => rfl
    | some n => exact congrArg some (toInt_ofInt_of_natAbs_lt (shape.natAbs_lt hv))
  constructor
  case negations =>
    intro bound hb n hn
    obtain ⟨place, shape⟩ := h bound hb
    exact fitsInt64_of_natAbs_lt (shape.natAbs_negation_lt hn)
  case predecessor =>
    intro bound hb n hn
    obtain ⟨place, shape⟩ := h bound (ofUpper bound hb)
    have small := shape.natAbs_lt hn
    simp only [fitsInt64, Bool.and_eq_true, decide_eq_true_eq]
    omega
  case words => exact words
  case wordPredecessor =>
    intro bound hb word hword
    obtain ⟨place, shape⟩ := h bound (ofUpper bound hb)
    have value := words bound (ofUpper bound hb)
    rw [hword, Option.map_some] at value
    have small := shape.natAbs_lt value.symm
    have one : (1 : Int64).toInt = 1 := rfl
    refine ⟨value.symm, ?_⟩
    rw [Int64.toInt_sub, one]
    exact Int.bmod_eq_of_le (by omega) (by omega)

/-- Every part stands at some place. -/
theorem exists_mem_placedParts {e part : Expr} (h : part ∈ e.parts) (place : Place) :
    ∃ inner, (inner, part) ∈ e.placedParts place := by
  cases e with
  | tuple items => exact ⟨_, List.mem_map_of_mem h⟩
  | subscript value index =>
    rcases List.mem_pair.1 h with rfl | rfl
    · exact ⟨.plain, List.mem_cons_self⟩
    · exact ⟨.index, List.mem_cons_of_mem _ List.mem_cons_self⟩
  | _ => exact ⟨.plain, List.mem_map_of_mem h⟩

/-- All slices in an expression have bounds that fit. -/
theorem WellShaped.slices_fit {place : Place} {e : Expr} (h : WellShaped place e) :
    e.Everywhere fun part =>
      ∀ lower upper step, part = .slice lower upper step → SliceFits lower upper := by
  induction e using induction_on_parts generalizing place with
  | step e ih =>
    have inside : ∀ part ∈ e.parts, ∃ inner, WellShaped inner part := fun part hm => by
      obtain ⟨inner, hi⟩ := exists_mem_placedParts hm place
      exact ⟨inner, h.inside hi⟩
    refine .node ?_ fun part hm => ?_
    · rintro lower upper step rfl
      exact sliceFits_of_wellShaped fun bound hb => inside bound (List.mem_append_left _ hb)
    · obtain ⟨inner, shape⟩ := inside part hm
      exact ih part hm shape

end Expr

/-- In every script that is read, nothing that is done with the bounds of a slice leaves the
integers of 64 bits, in whatever statement and expression the slice stands. -/
theorem slice_arithmetic_fits {source : String} {script : Block}
    (h : Script.read? source = some script) {stmt : Located Stmt}
    (hstmt : Nested Stmt.blocks stmt script) {e : Expr} (he : e ∈ stmt.node.exprs) :
    e.Everywhere fun part =>
      ∀ lower upper step, part = .slice lower upper step → Expr.SliceFits lower upper := by
  obtain ⟨tree, -, rfl⟩ := Option.map_eq_some_iff.1 h
  exact ((Concrete.shaped_lowerBlock tree stmt hstmt).exprs e he).slices_fit

/-- The largest integer of 64 bits below three minus signs : the bound that is written is the least
one. -/
theorem slice_arithmetic_fits_at_limit :
    let upper : Expr := .unary .neg (.unary .neg (.unary .neg (.constant (.int
      "9223372036854775807"))))
    let e : Expr := .subscript (.name "x") (.slice none (some upper) none)
    ∃ script stmt, Script.read? "x[:---9223372036854775807]\n" = some script ∧
      Nested Stmt.blocks stmt script ∧ e ∈ stmt.node.exprs ∧ Expr.SliceFits none (some upper) ∧
      upper.negations = [-0x7fffffffffffffff, 0x7fffffffffffffff, -0x7fffffffffffffff] ∧
      upper.integerValue?.map (· - 1) = some (-0x8000000000000000) := by
  intro upper e
  have found : (Script.read? "x[:---9223372036854775807]\n").any (fun script =>
      script.any fun stmt => decide (e ∈ stmt.node.exprs)) = true := by
    decide +kernel
  obtain ⟨script, read, hscript⟩ := (Option.any_eq_true _ _).1 found
  obtain ⟨stmt, hstmt, hexpr⟩ := List.any_eq_true.1 hscript
  have nested : Nested Stmt.blocks stmt script := .here hstmt
  have inside := slice_arithmetic_fits read nested (of_decide_eq_true hexpr)
  have part : .slice none (some upper) none ∈ e.parts := by
    simp [e, Expr.parts]
  have slice := (inside.inside part).here
  exact ⟨script, stmt, read, nested, of_decide_eq_true hexpr, slice _ _ _ rfl, by decide, by decide⟩

end Berrify
