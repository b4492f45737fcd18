import Berrify.Proofs.Expr.Tidy
import Berrify.Proofs.Stmt.Emission

/-!
# Receivers that statements write bare

In an expression the receiver of a subscript or of a method is an operand, which is put in
parentheses if it is compound. Two statements write such a receiver themselves, and as it stands
alone : an assignment to an item, and a loop through the keys of a map. So a target has the text of
the same expression exactly if its receiver is not compound (`target_text_eq_iff`), and so has the
header of a loop (`loop_header_eq_iff`), which besides leaves the named arguments of its call
unread.

What is put behind a bare receiver binds to the last operand of it (`render_onLast?`) : in the
target `(a or b)[0] = 1` becomes an assignment to an item of `b` (`render_target_onLast?`), and a
loop through the keys of `(a or b)` one through those of `b` (`loopHeader_onLast?`).
-/

namespace Berrify

namespace Expr

/-! ## Parentheses -/

theorem parenthesize_ne (text : String) : parenthesize text ≠ text := by
  intro h
  have lengths := congrArg String.length h
  simp only [parenthesize, String.length_append] at lengths
  have one : "(".length = 1 := rfl
  omega

theorem enclose_of_isCompound {e : Expr} (h : e.isCompound = true) (text : String) :
    e.enclose text = parenthesize text :=
  if_pos h

theorem enclose_eq_self_iff {e : Expr} {text : String} :
    e.enclose text = text ↔ e.isCompound = false := by
  cases h : e.isCompound with
  | false => simp [enclose, h]
  | true => simp [enclose_of_isCompound h, parenthesize_ne]

theorem write_operand_of_render {view : View} {e : Expr} {alone : String}
    (h : e.render view = .ok alone) : e.write view .operand = .ok (e.enclose alone) :=
  write_operand_eq_ok.2 ⟨alone, h, rfl⟩

/-! ## Operations on the last operand -/

/-- An expression with an operation on its last operand instead of on all of it. Of the comparisons
only a single relation of the target ends in an operand. -/
def onLast? (f : Expr → Expr) : Expr → Option Expr
  | .binary left op right => some (.binary left op (f right))
  | .unary op operand => some (.unary op (f operand))
  | .boolean op values =>
    values.getLast?.map fun last => .boolean op (values.dropLast ++ [f last])
  | .compare left [op] [right] => op.target?.map fun _ => .compare left [op] [f right]
  | .conditional test body orelse => some (.conditional test body (f orelse))
  | .lambda params body =>
    if body.isCompound then (body.onLast? f).map (.lambda params)
    else some (.lambda params (f body))
  | _ => none

/-- An operation that puts a text behind the one of its operand. -/
structure PutsBehind (view : View) (f : Expr → Expr) (suffix : String) : Prop where
  simple : ∀ e, (f e).isCompound = false
  whole : ∀ {e a}, e.write view .operand = .ok a → (f e).write view .whole = .ok (a ++ suffix)

section

variable {view : View} {f : Expr → Expr} {suffix : String}

theorem PutsBehind.operand (h : PutsBehind view f suffix) {e : Expr} {a : String}
    (ha : e.write view .operand = .ok a) : (f e).write view .operand = .ok (a ++ suffix) :=
  write_operand_eq_ok.2 ⟨_, h.whole ha, enclose_eq_self_iff.2 (h.simple e)⟩

theorem writeAll_concat_eq_ok {pos : Position} {es : List Expr} {last : Expr}
    {texts : List String} :
    writeAll view pos (es ++ [last]) = .ok texts ↔
      ∃ front, writeAll view pos es = .ok front ∧
        ∃ text, last.write view pos = .ok text ∧ front ++ [text] = texts := by
  induction es generalizing texts with
  | nil =>
    simp only [List.nil_append, writeAll, pure_bind, bind_eq_ok, pure_eq_ok, exists_eq_left']
  | cons e es ih =>
    simp only [List.cons_append, writeAll, bind_eq_ok, pure_eq_ok, ih]
    constructor
    · rintro ⟨first, hfirst, _, ⟨front, hfront, text, ht, rfl⟩, rfl⟩
      exact ⟨first :: front, ⟨first, hfirst, front, hfront, rfl⟩, text, ht, rfl⟩
    · rintro ⟨_, ⟨first, hfirst, front, hfront, rfl⟩, text, ht, rfl⟩
      exact ⟨first, hfirst, _, ⟨front, hfront, text, ht, rfl⟩, rfl⟩

theorem separated_concat_append (separator text suffix : String) (texts : List String) :
    separated separator (texts ++ [text ++ suffix]) =
      separated separator (texts ++ [text]) ++ suffix := by
  induction texts with
  | nil => simp [separated, String.intercalate_singleton]
  | cons first texts ih =>
    have spelled (last : String) : separated separator (first :: texts ++ [last]) =
        first ++ separator ++ separated separator (texts ++ [last]) := by
      cases texts <;> simp [separated, String.intercalate_cons_cons]
    rw [spelled, spelled, ih]
    simp only [String.append_assoc]

/-- A single relation of the target is written like an operation. -/
theorem write_relation_eq_ok {left right : Expr} {op : Comparison} {token text : String}
    (hop : op.target? = some token) :
    (Expr.compare left [op] [right]).write view .whole = .ok text ↔
      ∃ a, left.write view .operand = .ok a ∧ ∃ b, right.write view .operand = .ok b ∧
        a ++ " " ++ token ++ " " ++ b = text := by
  rw [write_compare_eq_ok]
  simp only [links, List.forall₂_cons_left_iff, List.forall₂_nil_left_iff,
    comparison_relation hop, bind_eq_ok, pure_eq_ok, enclose_whole]
  constructor
  · rintro ⟨_, ⟨_, _, ⟨a, ha, b, hb, rfl⟩, rfl, rfl⟩, rfl⟩
    exact ⟨a, ha, b, hb, rfl⟩
  · rintro ⟨a, ha, b, hb, rfl⟩
    exact ⟨_, ⟨_, _, ⟨a, ha, b, hb, rfl⟩, rfl, rfl⟩, rfl⟩

/-- What is put behind the bare text of an expression is put behind its last operand. -/
theorem render_onLast? (h : PutsBehind view f suffix) : ∀ {e moved : Expr} {text : String},
    e.onLast? f = some moved → e.render view = .ok text →
      moved.render view = .ok (text ++ suffix)
  | .binary left op right, _, text, rfl, ht => by
    obtain ⟨token, htoken, a, ha, b, hb, rfl⟩ := write_binary_eq_ok.1 ht
    refine write_binary_eq_ok.2 ⟨token, htoken, a, ha, _, h.operand hb, ?_⟩
    simp only [enclose_whole, String.append_assoc]
  | .unary op operand, _, text, rfl, ht => by
    obtain ⟨a, ha, rfl⟩ := write_unary_eq_ok.1 ht
    refine write_unary_eq_ok.2 ⟨_, h.operand ha, ?_⟩
    simp only [enclose_whole, ite_self, String.append_assoc]
  | .boolean op values, _, text, hm, ht => by
    obtain ⟨last, hlast, rfl⟩ := Option.map_eq_some_iff.1 hm
    obtain ⟨texts, htexts, rfl⟩ := write_boolean_eq_ok.1 ht
    rw [← List.dropLast_append_getLast? last hlast] at htexts
    obtain ⟨front, hfront, a, ha, rfl⟩ := writeAll_concat_eq_ok.1 htexts
    refine write_boolean_eq_ok.2
      ⟨_, writeAll_concat_eq_ok.2 ⟨front, hfront, _, h.operand ha, rfl⟩, ?_⟩
    simp only [enclose_whole, separated_concat_append]
  | .compare left [op] [right], _, text, hm, ht => by
    obtain ⟨token, htoken, rfl⟩ := Option.map_eq_some_iff.1 hm
    obtain ⟨a, ha, b, hb, rfl⟩ := (write_relation_eq_ok htoken).1 ht
    refine (write_relation_eq_ok htoken).2 ⟨a, ha, _, h.operand hb, ?_⟩
    simp only [String.append_assoc]
  | .conditional test body orelse, _, text, rfl, ht => by
    obtain ⟨a, ha, b, hb, c, hc, rfl⟩ := write_conditional_eq_ok.1 ht
    refine write_conditional_eq_ok.2 ⟨a, ha, b, hb, _, h.operand hc, ?_⟩
    simp only [enclose_whole, String.append_assoc]
  | .lambda params body, _, text, hm, ht => by
    obtain ⟨a, ha, rfl⟩ := write_lambda_eq_ok.1 ht
    cases hc : body.isCompound with
    | true =>
      rw [onLast?, hc, if_pos rfl, Option.map_eq_some_iff] at hm
      obtain ⟨inner, hinner, rfl⟩ := hm
      refine write_lambda_eq_ok.2 ⟨_, render_onLast? h hinner ha, ?_⟩
      simp only [enclose_whole, String.append_assoc]
    | false =>
      rw [onLast?, hc, if_neg Bool.false_ne_true, Option.some.injEq] at hm
      subst hm
      have operand : body.write view .operand = .ok a :=
        write_operand_eq_ok.2 ⟨a, ha, enclose_eq_self_iff.2 hc⟩
      refine write_lambda_eq_ok.2 ⟨_, h.whole operand, ?_⟩
      simp only [enclose_whole, String.append_assoc]

end

end Expr

/-! ## Targets -/

/-- The subscript at a given index. -/
def Expr.itemAt (index value : Expr) : Expr :=
  .subscript value index

theorem Expr.PutsBehind.itemAt {view : View} {index : Expr} {between : String}
    (h : index.renderIndex view = .ok between) :
    PutsBehind view (Expr.itemAt index) ("[" ++ between ++ "]") where
  simple _ := rfl
  whole ha := Expr.write_subscript_eq_ok.2 ⟨_, ha, between, h, by simp only [String.append_assoc]⟩

section

variable {view : View}

/-- Whether something is put behind a receiver that is compound. -/
def Expr.hasCompoundReceiver : Expr → Bool
  | .subscript receiver _ => receiver.isCompound
  | _ => false

/-- What a target that is a subscript is made of, and what the same subscript is as an
expression. -/
theorem renderTarget_subscript {receiver index : Expr} {text : String}
    (h : renderTarget view (.subscript receiver index) = .ok text) :
    ∃ inner, receiver.render view = .ok inner ∧ ∃ between, index.renderIndex view = .ok between ∧
      text = inner ++ "[" ++ between ++ "]" ∧
        (Expr.subscript receiver index).render view =
          .ok (receiver.enclose inner ++ "[" ++ between ++ "]") := by
  obtain ⟨between, hbetween, inner, hinner, rfl⟩ := renderTarget_subscript_eq_ok.1 h
  exact ⟨inner, hinner, between, hbetween, rfl,
    Expr.write_subscript_eq_ok.2 ⟨_, Expr.write_operand_of_render hinner, between, hbetween, rfl⟩⟩

/-- Whatever can be assigned to can be written as an expression, and the two texts are equal exactly
if the target does not put an index behind a compound receiver. Where it does they differ in the
parentheses around the receiver. -/
theorem target_text_eq_iff {target : Expr} {text : String}
    (h : renderTarget view target = .ok text) :
    ∃ alone, target.render view = .ok alone ∧
      (text = alone ↔ target.hasCompoundReceiver = false) ∧
      ∀ receiver index, target = .subscript receiver index → receiver.isCompound = true →
        ∃ inner between, receiver.render view = .ok inner ∧
          index.renderIndex view = .ok between ∧ text = inner ++ "[" ++ between ++ "]" ∧
            alone = parenthesize inner ++ "[" ++ between ++ "]" := by
  match target with
  | .name id => exact ⟨text, h, by simp [Expr.hasCompoundReceiver], nofun⟩
  | .attribute value attr => exact ⟨text, h, by simp [Expr.hasCompoundReceiver], nofun⟩
  | .subscript receiver index =>
    obtain ⟨inner, hinner, between, hbetween, rfl, alone⟩ := renderTarget_subscript h
    refine ⟨_, alone, ?_, ?_⟩
    · rw [String.append_left_inj, String.append_left_inj, String.append_left_inj, eq_comm]
      exact Expr.enclose_eq_self_iff
    · rintro _ _ ⟨rfl, rfl⟩ hc
      exact ⟨inner, between, hinner, hbetween, rfl, by rw [Expr.enclose_of_isCompound hc]⟩
  | .constant _ | .call .. | .binary .. | .unary .. | .boolean .. | .compare .. | .conditional ..
  | .dict _ | .list _ | .tuple _ | .set _ | .slice .. | .lambda .. | .template _ | .starred _
  | .unsupported _ => simp [renderTarget, throw_eq_ok] at h

/-- An item of an item of a sum : only the inner receiver is compound, so the texts are equal. -/
theorem target_text_eq_iff_nested :
    let view : View := ⟨.builtin, .start .lexical⟩
    let sum : Expr := .binary (.name "a") .add (.name "b")
    let target : Expr := .subscript (.subscript sum (.constant (.int "0"))) (.name "i")
    renderTarget view target = .ok "(a + b)[0][i]" ∧
      target.render view = .ok "(a + b)[0][i]" := by
  intro view sum target
  have written : renderTarget view target = .ok "(a + b)[0][i]" := rfl
  obtain ⟨alone, render, same, -⟩ := target_text_eq_iff written
  exact ⟨written, by rw [render, same.2 rfl]⟩

/-- An item of one of two containers as an expression, and as a target, which is an item of the
second. -/
theorem target_text_of_choice :
    let view : View := ⟨.builtin, .start .lexical⟩
    let target : Expr :=
      .subscript (.boolean .or [.name "a", .name "b"]) (.constant (.int "0"))
    target.render view = .ok "(a || b)[0]" ∧ renderTarget view target = .ok "a || b[0]" :=
  ⟨rfl, rfl⟩

/-- A target with an index behind a compound receiver has the text of another expression, in which
the index stands behind the last operand of the receiver. -/
theorem render_target_onLast? {receiver index moved : Expr} {text : String}
    (h : renderTarget view (.subscript receiver index) = .ok text)
    (hm : receiver.onLast? (.itemAt index) = some moved) : moved.render view = .ok text := by
  obtain ⟨inner, hinner, between, hbetween, rfl, -⟩ := renderTarget_subscript h
  rw [Expr.render_onLast? (.itemAt hbetween) hm hinner]
  simp only [String.append_assoc]

example : (Expr.boolean .or [.name "a", .name "b"]).onLast? (.itemAt (.name "i")) =
    some (.boolean .or [.name "a", .subscript (.name "b") (.name "i")]) :=
  rfl

end

/-! ## Loops -/

/-- Whether the method `keys` has the same name in every class of the target. -/
def Naming.KeepsKeys (n : Naming) : Prop :=
  ∀ targetClass, n.methodName targetClass "keys" = "keys"

/-- It is enough to look at the tables of the classes that have one. -/
theorem Naming.keepsKeys_of_methods {n : Naming}
    (h : ∀ entry ∈ n.methods.entries, (entry.2.get? "keys").getD "keys" = "keys") :
    n.KeepsKeys := by
  intro targetClass
  unfold methodName
  cases ht : n.methods.get? targetClass with
  | none => rfl
  | some table => exact h _ (NameMap.mem_of_get? ht)

theorem Naming.keepsKeys_builtin : builtin.KeepsKeys :=
  keepsKeys_of_methods (by decide)

/-- The call for the keys of a map. -/
def Expr.keysOf (receiver : Expr) : Expr :=
  .call (.attribute receiver "keys") [] []

theorem View.methodName_keys {view : View} (hk : view.naming.KeepsKeys) (receiver : Expr) :
    view.methodName receiver "keys" = "keys" := by
  unfold View.methodName
  split
  · exact hk _
  · rfl

section

variable {view : View}

/-- When a call of `keys` without arguments in parentheses can be written as an expression. -/
theorem Expr.render_keys_eq_ok (hk : view.naming.KeepsKeys) {receiver : Expr}
    {keywords : List (Keyword Expr)} {text : String} :
    (Expr.call (.attribute receiver "keys") [] keywords).render view = .ok text ↔
      keywords = [] ∧ ∃ a, receiver.write view .operand = .ok a ∧ a ++ ".keys()" = text := by
  refine write_call_eq_ok.trans ?_
  simp only [callee, View.methodName_keys hk, bind_eq_ok, pure_eq_ok, writeArguments]
  constructor
  · rintro ⟨_, ⟨a, ha, rfl⟩, hkeywords, _, rfl, rfl⟩
    refine ⟨hkeywords, a, ha, ?_⟩
    simp only [String.append_assoc]
    rfl
  · rintro ⟨hkeywords, a, ha, rfl⟩
    refine ⟨_, ⟨a, ha, rfl⟩, hkeywords, _, rfl, ?_⟩
    simp only [String.append_assoc]
    rfl

theorem Expr.PutsBehind.keysOf (hk : view.naming.KeepsKeys) :
    PutsBehind view Expr.keysOf ".keys()" where
  simple _ := rfl
  whole ha := (Expr.render_keys_eq_ok hk).2 ⟨rfl, _, ha, rfl⟩

/-- A loop through the keys of a compound receiver has the header of another loop, in which `keys`
is called on the last operand of the receiver. -/
theorem loopHeader_onLast? (hk : view.naming.KeepsKeys) {target receiver moved : Expr}
    {keywords : List (Keyword Expr)} {orelse : Block} {key header : String}
    (h : loopHeader view target (.call (.attribute receiver "keys") [] keywords) orelse =
      .ok (key, header))
    (hm : receiver.onLast? .keysOf = some moved) :
    ∃ text, moved.render view = .ok text ∧ header = "for " ++ key ++ " : " ++ text := by
  obtain ⟨-, -, _, _, ⟨⟩, inner, hinner, rfl⟩ := loopHeader_eq_ok.1 h
  refine ⟨_, Expr.render_onLast? (.keysOf hk) hm hinner, ?_⟩
  simp only [String.append_assoc]

end

/-- The header of every accepted loop has the bare text of the map in it. The call that the loop
goes through can be written as an expression exactly if it has no named arguments, and the header
has the text of that expression exactly if the map is not compound. -/
theorem loop_header_eq_iff {site : Site} (hk : site.style.naming.KeepsKeys) {target iter : Expr}
    {body orelse : Block} {scope : Scope} {r : Emitted}
    (h : (Stmt.forEach target iter body orelse).emit site scope = .ok r) :
    ∃ key receiver keywords inner header lines,
      target = .name key ∧ iter = .call (.attribute receiver "keys") [] keywords ∧
      receiver.render (site.view scope) = .ok inner ∧
      r.lines = .flush header :: lines ∧
      header = "for " ++ key ++ " : " ++ inner ++ ".keys()" ∧
      ((∃ text, iter.render (site.view scope) = .ok text) ↔ keywords = []) ∧
      ∀ text, iter.render (site.view scope) = .ok text →
        text = receiver.enclose inner ++ ".keys()" ∧
          (header = "for " ++ key ++ " : " ++ text ↔ receiver.isCompound = false) := by
  simp only [Stmt.emit, bind_eq_ok, pure_eq_ok, orRefuse_eq_ok] at h
  obtain ⟨⟨key, header⟩, hh, _, -, rfl⟩ := h
  obtain ⟨-, rfl, receiver, keywords, rfl, inner, hr, rfl⟩ := loopHeader_eq_ok.1 hh
  have call (text : String) :
      (Expr.call (.attribute receiver "keys") [] keywords).render (site.view scope) = .ok text ↔
        keywords = [] ∧ receiver.enclose inner ++ ".keys()" = text := by
    rw [Expr.render_keys_eq_ok hk]
    simp only [Expr.write_operand_of_render hr, Except.ok.injEq, exists_eq_left']
  refine ⟨key, receiver, keywords, inner, _, _, rfl, rfl, hr, rfl, rfl, ?_, fun text ht => ?_⟩
  · simp only [call, exists_and_left, exists_eq', and_true]
  · obtain ⟨-, rfl⟩ := (call text).1 ht
    refine ⟨rfl, ?_⟩
    rw [String.append_assoc, String.append_right_inj, String.append_left_inj, eq_comm]
    exact Expr.enclose_eq_self_iff

/-- A loop through the keys of an item of a map, which is not compound. -/
theorem loop_header_eq_iff_item :
    let site : Site := { style := {} }
    let iter : Expr := .call (.attribute (.subscript (.name "m") (.name "i")) "keys") [] []
    let loop : Stmt := .forEach (.name "k") iter [⟨2, .pass⟩] []
    site.style.naming.KeepsKeys ∧ iter.render (site.view (.start .lexical)) = .ok "m[i].keys()" ∧
      ∃ r, loop.emit site (.start .lexical) = .ok r ∧
        ∃ lines, r.lines = .flush "for k : m[i].keys()" :: lines := by
  intro site iter loop
  have keeps : site.style.naming.KeepsKeys := Naming.keepsKeys_builtin
  have written : iter.render (site.view (.start .lexical)) = .ok "m[i].keys()" := rfl
  have accepted : ∃ r, loop.emit site (.start .lexical) = .ok r := ⟨_, rfl⟩
  obtain ⟨r, hr⟩ := accepted
  obtain ⟨_, _, _, _, _, lines, hkey, hiter, -, hlines, -, -, same⟩ := loop_header_eq_iff keeps hr
  simp only [Expr.name.injEq] at hkey
  simp only [iter, Expr.call.injEq, Expr.attribute.injEq] at hiter
  obtain ⟨⟨rfl, -⟩, -⟩ := hiter
  rw [(same _ written).2.2 rfl, ← hkey] at hlines
  exact ⟨keeps, written, r, hr, lines, hlines⟩

/-- A loop through the keys of one of two maps, whose header goes through those of the second, and a
loop with a named argument, which is accepted although the call alone cannot be written. -/
theorem loop_headers_of_unwritten_calls :
    let view : View := ⟨.builtin, .start .lexical⟩
    let choice : Expr := .call (.attribute (.boolean .or [.name "a", .name "b"]) "keys") [] []
    let named : Expr :=
      .call (.attribute (.name "m") "keys") [] [⟨some "x", .constant (.int "1")⟩]
    let loop (iter : Expr) : Block := [⟨1, .forEach (.name "k") iter [⟨2, .pass⟩] []⟩]
    Naming.builtin.KeepsKeys ∧
    (choice.render view = .ok "(a || b).keys()" ∧
      emitScript {} (loop choice) = .ok "for k : a || b.keys()\nend\n") ∧
    ((∀ text, named.render view ≠ .ok text) ∧
      emitScript {} (loop named) = .ok "for k : m.keys()\nend\n") :=
  ⟨Naming.keepsKeys_builtin, ⟨rfl, rfl⟩, ⟨nofun, rfl⟩⟩

end Berrify
