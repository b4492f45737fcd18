import Berrify.Proofs.Expr.Parts

/-!
# What the text of an expression depends on

Of a view, writing an expression reads the names under which bare names are called, the names of the
methods that are called on its receivers, and whether a name is that of a known function. Two views
that agree on these, for the receivers that there are, give an expression the same text, or refuse
it with the same cause (`write_eq_of_everywhere`). So do two views with the same name tables whose
scopes know the same kinds and functions, for every expression (`write_eq`).
-/

namespace Berrify

/-- Two views answer every question alike about methods whose receiver has a property. -/
structure View.AgreesOn (p : Expr → Prop) (v w : View) : Prop where
  calleeName : ∀ id, v.calleeName id = w.calleeName id
  methodName : ∀ receiver, p receiver → ∀ method,
    v.methodName receiver method = w.methodName receiver method
  knows : ∀ name, v.scope.knows name = w.scope.knows name

theorem View.AgreesOn.asArgument {p : Expr → Prop} {v w : View} (h : v.AgreesOn p w) (arg : Expr)
    (text : String) : v.asArgument arg text = w.asArgument arg text := by
  have function : v.isFunction arg = w.isFunction arg := by
    cases arg <;> first | exact h.knows _ | rfl
  rw [View.asArgument, View.asArgument, function]

/-- Two views answer every question alike. -/
structure View.Agrees (v w : View) : Prop where
  naming : v.naming = w.naming
  kindOf : ∀ path, v.scope.kindOf path = w.scope.kindOf path
  knows : ∀ name, v.scope.knows name = w.scope.knows name

theorem View.Agrees.on {v w : View} (h : v.Agrees w) (p : Expr → Prop) : v.AgreesOn p w := by
  refine ⟨fun id => ?_, fun receiver _ method => ?_, h.knows⟩
  · rw [View.calleeName, View.calleeName, h.naming]
  · have kind : v.receiverKind receiver = w.receiverKind receiver := by
      unfold receiverKind
      cases receiver.dottedPath? with
      | some path => exact h.kindOf path
      | none => simp only [h.naming]
    rw [View.methodName, View.methodName, kind, h.naming]

namespace Expr

/-- An expression is written alike from two views. -/
def SameText (v w : View) (e : Expr) : Prop :=
  ∀ pos : Position, e.write v pos = e.write w pos

variable {p : Expr → Prop} {v w : View}

theorem writeAll_congr (pos : Position) (es : List Expr) (h : ∀ e ∈ es, SameText v w e) :
    writeAll v pos es = writeAll w pos es := by
  induction es with
  | nil => simp only [writeAll]
  | cons e es ih =>
    obtain ⟨he, hes⟩ := List.forall_mem_cons.1 h
    rw [writeAll, writeAll, he pos, ih hes]

theorem writeArguments_congr (hv : v.AgreesOn p w) {es : List Expr} (h : ∀ e ∈ es, SameText v w e) :
    writeArguments v es = writeArguments w es := by
  induction es with
  | nil => simp only [writeArguments]
  | cons e es ih =>
    obtain ⟨he, hes⟩ := List.forall_mem_cons.1 h
    simp only [writeArguments, he .whole, ih hes, hv.asArgument]

theorem writeEntries_congr {entries : List (Expr × Expr)}
    (h : ∀ entry ∈ entries, SameText v w entry.1 ∧ SameText v w entry.2) :
    writeEntries v entries = writeEntries w entries := by
  induction entries with
  | nil => simp only [writeEntries]
  | cons entry entries ih =>
    obtain ⟨he, hes⟩ := List.forall_mem_cons.1 h
    rw [writeEntries, writeEntries, he.1 .whole, he.2 .whole, ih hes]

theorem callee_congr (hv : v.AgreesOn p w) {func : Expr} (hf : SameText v w func)
    (hparts : ∀ part ∈ func.parts, p part ∧ SameText v w part) :
    callee v func = callee w func := by
  match func with
  | .name id => rw [callee, callee, hv.calleeName]
  | .attribute value attr =>
    obtain ⟨hp, hvalue⟩ := hparts value (by simp [parts])
    rw [callee, callee, hvalue .operand, hv.methodName value hp]
  | .constant _ | .call .. | .binary .. | .unary .. | .boolean .. | .compare .. | .conditional ..
  | .dict _ | .list _ | .tuple _ | .set _ | .subscript .. | .slice .. | .lambda .. | .template _
  | .starred _ | .unsupported _ => exact hf .operand

theorem comparison_congr {left right : Expr} (op : Comparison) (hl : SameText v w left)
    (hr : SameText v w right) (hitems : ∀ item ∈ right.parts, SameText v w item) :
    comparison v left op right = comparison w left op right := by
  unfold comparison
  cases right with
  | list items | tuple items | set items =>
    simp only [hl .operand, hr .operand, writeAll_congr .operand items hitems]
  | _ => simp only [hl .operand, hr .operand, hl .whole, hr .whole]

theorem writeChain_congr {left : Expr} (hl : SameText v w left) {comparators : List Expr}
    (h : ∀ e ∈ comparators, SameText v w e ∧ ∀ inner ∈ e.parts, SameText v w inner)
    (ops : List Comparison) :
    writeChain v left (left.write v .whole) ops comparators =
      writeChain w left (left.write w .whole) ops comparators := by
  induction comparators generalizing left ops with
  | nil => cases ops <;> simp only [writeChain]
  | cons right rest ih =>
    obtain ⟨⟨hr, hitems⟩, hrest⟩ := List.forall_mem_cons.1 h
    cases ops with
    | nil => simp only [writeChain]
    | cons op ops =>
      rw [writeChain_cons, writeChain_cons, comparison_congr op hl hr hitems, ih hr hrest ops]

theorem write_slice_congr {lower upper : Option Expr} (step : Option Expr)
    (hl : ∀ bound ∈ lower, SameText v w bound) (hu : ∀ bound ∈ upper, SameText v w bound) :
    SameText v w (.slice lower upper step) := by
  have lowers : lowerBound v lower = lowerBound w lower := by
    cases lower with
    | none => rfl
    | some bound => exact hl bound rfl .operand
  have uppers : upperBound v upper = upperBound w upper := by
    cases upper with
    | none => rfl
    | some bound => simp only [upperBound, hu bound rfl .operand]
  intro pos
  cases pos with
  | whole | operand => simp only [write]
  | index =>
    cases step with
    | some _ =>
      simp only [write, Option.isSome_some, if_true]
      rfl
    | none =>
      cases he : isEmptySlice lower upper with
      | true =>
        simp only [write, Option.isSome_none, Bool.false_eq_true, if_false, he, if_true]
        rfl
      | false => rw [write_slice he, write_slice he, lowers, uppers]

/-- The text of an expression follows from those of its parts and the parts of these. -/
theorem sameText_of_parts (hv : v.AgreesOn p w) {e : Expr}
    (he : ∀ part ∈ e.parts, SameText v w part ∧
      ∀ inner ∈ part.parts, p inner ∧ SameText v w inner) :
    SameText v w e := by
  have hp : ∀ part ∈ e.parts, SameText v w part := fun part hm => (he part hm).1
  intro pos
  match e with
  | .name _ | .constant _ | .set _ | .starred _ | .unsupported _ => simp only [write]
  | .attribute value attr => rw [write, write, hp value (by simp [parts]) .operand]
  | .call func args keywords =>
    obtain ⟨hf, hinner⟩ := he func (by simp [parts])
    have hargs : ∀ arg ∈ args, SameText v w arg := fun arg hm => hp arg (by simp [parts, hm])
    rw [write_call, write_call, callee_congr hv hf hinner, writeArguments_congr hv hargs]
  | .binary left op right =>
    simp only [write, hp left (by simp [parts]) .operand, hp right (by simp [parts]) .operand]
  | .unary op operand => rw [write, write, hp operand (by simp [parts]) .operand]
  | .boolean op values => rw [write, write, writeAll_congr .operand values hp]
  | .compare left ops comparators =>
    have hmore : ∀ e ∈ comparators, SameText v w e ∧ ∀ inner ∈ e.parts, SameText v w inner :=
      fun e hm => (he e (by simp [parts, hm])).imp_right fun h inner hi => (h inner hi).2
    rw [write, write, writeChain_congr (hp left (by simp [parts])) hmore]
  | .conditional test body orelse =>
    rw [write, write, hp test (by simp [parts]) .operand, hp body (by simp [parts]) .operand,
      hp orelse (by simp [parts]) .operand]
  | .dict entries =>
    have hentries : ∀ entry ∈ entries, SameText v w entry.1 ∧ SameText v w entry.2 :=
      fun entry hm => ⟨hp entry.1 (List.mem_flatMap.2 ⟨entry, hm, by simp⟩),
        hp entry.2 (List.mem_flatMap.2 ⟨entry, hm, by simp⟩)⟩
    rw [write, write, writeEntries_congr hentries]
  | .list items => rw [write, write, writeAll_congr .whole items hp]
  | .tuple items => cases pos <;> simp only [write, writeAll_congr .whole items hp]
  | .subscript value index =>
    rw [write, write, hp value (by simp [parts]) .operand, hp index (by simp [parts]) .index]
  | .slice lower upper step =>
    exact write_slice_congr step (fun bound hb => hp bound (by simp [parts, Option.mem_def.1 hb]))
      (fun bound hb => hp bound (by simp [parts, Option.mem_def.1 hb])) pos
  | .lambda params body => rw [write, write, hp body (by simp [parts]) .whole]
  | .template pieces =>
    rw [write, write, writeValues_eq, writeValues_eq,
      writeAll_congr .whole (embedded pieces) hp]

/-- From views that agree on the receivers in an expression, it is written alike. -/
theorem write_eq_of_everywhere (hv : v.AgreesOn p w) {e : Expr} (he : Everywhere p e) :
    SameText v w e := by
  induction e using induction_on_inner_parts with
  | step e ih =>
    refine sameText_of_parts hv fun part hm => ⟨(ih part hm).1 (he.inside hm), fun inner hi => ?_⟩
    have inside := (he.inside hm).inside hi
    exact ⟨inside.here, (ih part hm).2 inner hi inside⟩

/-- From views that agree an expression is written alike. -/
theorem write_eq (e : Expr) (hv : v.Agrees w) (pos : Position) : e.write v pos = e.write w pos :=
  write_eq_of_everywhere (hv.on fun _ => True) (everywhere_of_forall fun _ => trivial) pos

theorem render_eq (e : Expr) (hv : v.Agrees w) : e.render v = e.render w :=
  e.write_eq hv .whole

theorem renderCondition_eq (e : Expr) (hv : v.Agrees w) :
    e.renderCondition v = e.renderCondition w := by
  rw [renderCondition, renderCondition, e.render_eq hv]

end Expr

end Berrify
