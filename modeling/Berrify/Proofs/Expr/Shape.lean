import Berrify.Proofs.Expr.Parts

/-!
# The shape of expressions

The emitter relies on the shape of the expressions it gets : connectives are flat and join at least
two operands, comparisons have an operator for each operand behind the first, integers are unsigned
texts without separators (`IsIntText`), and slices stand between the brackets of a subscript only.
`Expr.FitsAt` says this of one node, which depends on where the node stands (`Place`), and
`Expr.WellShaped` of an expression with all that it is made of.

An expression without slices on its surface has its shape wherever it stands
(`Expr.WellShaped.anywhere`), so that an expression of plain parts needs no look at their places
(`Expr.WellShaped.of_parts`).
-/

namespace Berrify

open Text

/-! ## Integers -/

/-- The text of an unsigned integer without separators, in decimal or marked as hexadecimal. -/
structure IsIntText (text : String) : Prop where
  nonempty : text ≠ ""
  noSeparator : '_' ∉ text.toList
  noSign : '-' ∉ text.toList ∧ '+' ∉ text.toList
  form : text.toList.all Char.isDigit = true ∨ startsWith "0x" text = true ∨
    startsWith "0X" text = true

/-- The characters of a number, in decimal or hexadecimal. -/
theorem isIntText_ofList {cs : List Char} (hne : cs ≠ [])
    (hcs : ∀ c ∈ cs, c ≠ '_' ∧ c ≠ '-' ∧ c ≠ '+')
    (hform : cs.all Char.isDigit = true ∨ ['0', 'x'] <+: cs ∨ ['0', 'X'] <+: cs) :
    IsIntText (String.ofList cs) where
  nonempty h := hne (by simpa using congrArg String.toList h)
  noSeparator h := (hcs _ (by simpa using h)).1 rfl
  noSign := ⟨fun h => (hcs _ (by simpa using h)).2.1 rfl,
    fun h => (hcs _ (by simpa using h)).2.2 rfl⟩
  form := by simpa [startsWith, List.isPrefixOf_iff_prefix] using hform

theorem isIntText_of_isDigit {cs : List Char} (hne : cs ≠ []) (h : ∀ c ∈ cs, c.isDigit = true) :
    IsIntText (String.ofList cs) := by
  refine isIntText_ofList hne (fun c hc => ?_) (.inl (List.all_eq_true.2 h))
  refine ⟨?_, ?_, ?_⟩ <;> rintro rfl <;> exact absurd (h _ hc) (by decide)

/-! ## Expressions -/

/-- Where an expression stands, as far as slices are concerned. -/
inductive Place where
  | plain
  /-- Between the brackets of a subscript. -/
  | index
  /-- Among several indices between the brackets of a subscript. -/
  | item

/-- Where the items of a tuple stand. -/
def Place.ofItem : Place → Place
  | index => item
  | _ => plain

namespace Expr

/-- The expressions directly inside of an expression, with their places. -/
def placedParts (place : Place) : Expr → List (Place × Expr)
  | .subscript value index => [(.plain, value), (.index, index)]
  | .tuple items => items.map (place.ofItem, ·)
  | e => e.parts.map (.plain, ·)

/-- The shape of a node at a place. -/
def FitsAt (place : Place) : Expr → Prop
  | .boolean op values => 2 ≤ values.length ∧ ∀ value ∈ values, ∀ inner, value ≠ .boolean op inner
  | .compare _ ops comparators => ops.length = comparators.length ∧ ops ≠ []
  | .constant (.int text) => IsIntText text
  | .slice .. => place ≠ .plain
  | _ => True

theorem FitsAt.anywhere {e : Expr} (h : e.FitsAt .plain) (place : Place) : e.FitsAt place := by
  cases e with
  | slice lower upper step => exact absurd rfl h
  | constant value => cases value <;> exact h
  | _ => exact h

/-- The shape of an expression at a place and of all that it is made of. -/
inductive WellShaped : Place → Expr → Prop where
  | node {place : Place} {e : Expr} : e.FitsAt place →
      (∀ part ∈ e.placedParts place, WellShaped part.1 part.2) → WellShaped place e

namespace WellShaped

theorem here {place : Place} {e : Expr} (h : WellShaped place e) : e.FitsAt place := by
  cases h with
  | node h _ => exact h

theorem inside {place : Place} {e : Expr} (h : WellShaped place e) {part : Place × Expr}
    (hm : part ∈ e.placedParts place) : WellShaped part.1 part.2 := by
  cases h with
  | node _ h => exact h part hm

/-- What has its shape anywhere has it between brackets too. -/
theorem anywhere {e : Expr} (h : WellShaped .plain e) (place : Place) : WellShaped place e := by
  induction e using induction_on_parts generalizing place with
  | step e ih =>
    refine .node (h.here.anywhere place) fun part hm => ?_
    cases e with
    | tuple items =>
      obtain ⟨item, hi, rfl⟩ := List.mem_map.1 hm
      exact ih item hi (h.inside (List.mem_map_of_mem hi)) _
    | _ => exact h.inside hm

/-- An expression of plain parts. -/
theorem of_parts {place : Place} {e : Expr} (hfits : e.FitsAt place)
    (hparts : ∀ part ∈ e.parts, WellShaped .plain part) : WellShaped place e := by
  refine .node hfits fun part hm => ?_
  have plain : part.2 ∈ e.parts := by
    cases e with
    | tuple items =>
      obtain ⟨item, hi, rfl⟩ := List.mem_map.1 hm
      exact hi
    | subscript value index =>
      rcases List.mem_pair.1 hm with rfl | rfl <;> simp [parts]
    | _ =>
      obtain ⟨item, hi, rfl⟩ := List.mem_map.1 hm
      exact hi
  exact (hparts part.2 plain).anywhere part.1

theorem leaf {place : Place} {e : Expr} (hfits : e.FitsAt place) (hparts : e.parts = []) :
    WellShaped place e :=
  of_parts hfits (by simp [hparts])

theorem only {place : Place} {e part : Expr} (hfits : e.FitsAt place) (hparts : e.parts = [part])
    (h : WellShaped .plain part) : WellShaped place e :=
  of_parts hfits (by simpa [hparts] using h)

end WellShaped

end Expr

end Berrify
