import Berrify.Proofs.Expr.Mark
import Berrify.Proofs.Stmt.FirstFault

/-!
# Lines in messages

A script that is refused is refused for the first statement that is at fault, and the message ends
in the line of that statement, unless the explanation quotes a text that holds the mark of a line
already. A mark may be in a string, or come about where a callee is put together
(`first_fault_gives_line`, `line_missing_iff_quoted`).

If the names, numbers and kinds of a script and of the tables are quiet and its strings hold no mark
(`Stmt.QuietHere`, `Naming.QuietNames`), then nothing that is quoted holds a mark. For names this
says that none of them is `line`.
-/

namespace Berrify

open Text
open Refusal (lineMark lineText)

/-! ## What refusals quote -/

variable {view : View}

/-- A computation whose refusals quote only quiet texts. -/
def Calmly {α : Type} (x : Except Refusal α) : Prop :=
  FailsOnly (·.cause.Calm) x

theorem Expr.calmly_write (hn : view.naming.QuietNames) {e : Expr} (h : e.QuietTexts)
    (pos : Position) : FailsOnly Cause.Calm (e.write view pos) :=
  (Expr.hushed hn h pos).failsOnly

theorem calmly_render (hn : view.naming.QuietNames) {e : Expr} (h : e.QuietTexts) :
    Calmly (orRefuse (e.render view)) :=
  failsOnly_orRefuse (Expr.calmly_write hn h .whole)

theorem calmly_renderCondition (hn : view.naming.QuietNames) {e : Expr} (h : e.QuietTexts) :
    Calmly (orRefuse (e.renderCondition view)) :=
  failsOnly_orRefuse (Expr.calmly_write hn h .whole).map

theorem quiet_blank_kind {e : Expr} (h : e.QuietTexts) : Quiet (" " ++ e.kindName) :=
  Quiet.gap_append (by decide) (Expr.quiet_kindName h.here)

/-- The refusal of a construct of the grammar that quotes one text. -/
theorem calm_quoting {construct quote : String} (hc : Quiet construct) (hq : Quiet quote) :
    ∀ text ∈ [construct, quote], Quiet text :=
  List.forall_mem_cons.2 ⟨hc, List.forall_mem_singleton.2 hq⟩

theorem calmly_renderTarget (hn : view.naming.QuietNames) {target : Expr}
    (h : target.QuietTexts) : FailsOnly Cause.Calm (renderTarget view target) := by
  have other : Cause.Calm (.target target.kindName) :=
    List.forall_mem_singleton.2 (quiet_blank_kind h)
  match target with
  | .name id => trivial
  | .attribute value attr => exact Expr.calmly_write hn h .whole
  | .subscript value index =>
    have hvalue : value.QuietTexts := h.inside (by simp [Expr.parts])
    have hindex : index.QuietTexts := h.inside (by simp [Expr.parts])
    have receiver := Expr.calmly_write hn hvalue .whole
    have inside := Expr.calmly_write hn hindex .index
    cases hi : index.renderIndex view with
    | ok text =>
      simp only [renderTarget, hi, pure_bind]
      exact receiver.bind fun _ => trivial
    | error inner =>
      simp only [renderTarget, hi]
      rw [show index.write view .index = _ from hi] at inside
      exact inside
  | .tuple _ | .list _ => exact (by decide : Cause.Calm .targetUnpacking)
  | .starred _ => exact (by decide : Cause.Calm .starredTarget)
  | .constant _ | .call .. | .binary .. | .unary .. | .boolean .. | .compare .. | .conditional ..
  | .dict _ | .set _ | .slice .. | .lambda .. | .template _ | .unsupported _ => exact other

/-! ## Headers -/

theorem calmly_classHeader (hn : view.naming.QuietNames) {name : String} (h : Quiet name)
    {bases : List Expr} (hb : ∀ base ∈ bases, base.QuietTexts) :
    FailsOnly Cause.Calm (classHeader view name bases) := by
  have proper : ∀ base ∈ properBases bases, base.QuietTexts :=
    fun base hm => hb base (List.mem_filter.1 hm).1
  unfold classHeader
  match properBases bases, proper with
  | [], _ => exact failsOnly_pure _
  | [base], proper =>
    exact (Expr.calmly_write hn (proper base List.mem_cons_self) .whole).bind
      fun _ => failsOnly_pure _
  | _ :: _ :: _, _ => exact calm_quoting (by decide) h

theorem quiet_dottedPath? {e : Expr} (h : e.QuietTexts) {path : String}
    (hp : e.dottedPath? = some path) : Quiet path := by
  induction e using Expr.induction_on_parts generalizing path with
  | step e ih =>
    match e with
    | .name id =>
      cases hp
      exact h.here
    | .attribute value attr =>
      obtain ⟨front, hf, rfl⟩ := Option.map_eq_some_iff.1 hp
      have inner := ih value (by simp [Expr.parts]) (h.inside (by simp [Expr.parts])) hf
      exact inner.between (by decide) h.here
    | .constant _ | .call .. | .binary .. | .unary .. | .boolean .. | .compare ..
    | .conditional .. | .dict _ | .list _ | .tuple _ | .set _ | .subscript .. | .slice ..
    | .lambda .. | .template _ | .starred _ | .unsupported _ => cases hp

theorem calmly_staticDecorators {function : String} (h : Quiet function) {decorators : List Expr}
    (hd : ∀ decorator ∈ decorators, decorator.QuietTexts) :
    FailsOnly Cause.Calm (staticDecorators function decorators) := by
  induction decorators with
  | nil => exact failsOnly_pure _
  | cons decorator rest ih =>
    obtain ⟨hdecorator, hrest⟩ := List.forall_mem_cons.1 hd
    have shown : Quiet (decorator.dottedPath?.getD decorator.kindName) := by
      cases hp : decorator.dottedPath? with
      | none => exact Expr.quiet_kindName hdecorator.here
      | some path => exact quiet_dottedPath? hdecorator hp
    unfold staticDecorators
    split
    · exact failsOnly_pure _
    · rename_i heq
      cases heq
      exact (ih hrest).bind fun _ => failsOnly_pure _
    · rename_i heq
      cases heq
      exact List.forall_mem_cons.2 ⟨by decide, calm_quoting (shown.append_gap (by decide)) h⟩

theorem calmly_checkParams {params : List Param} (h : ∀ param ∈ params, Quiet param.name) :
    FailsOnly Cause.Calm (checkParams params) := by
  induction params with
  | nil => exact failsOnly_pure _
  | cons param rest ih =>
    obtain ⟨hparam, hrest⟩ := List.forall_mem_cons.1 h
    cases hk : param.kind with
    | positional =>
      simp only [checkParams, hk]
      exact ih hrest
    | varArgs =>
      simp only [checkParams, hk]
      exact calm_quoting (by decide) hparam
    | kwArgs =>
      simp only [checkParams, hk]
      exact calm_quoting (by decide) hparam

theorem calmly_emitGuards (hn : view.naming.QuietNames) {params : List Param}
    (h : ∀ param ∈ params, ∀ value ∈ param.fallback, value.QuietTexts) :
    FailsOnly Cause.Calm (emitGuards view params) := by
  induction params with
  | nil => exact failsOnly_pure _
  | cons param rest ih =>
    obtain ⟨hparam, hrest⟩ := List.forall_mem_cons.1 h
    rw [emitGuards]
    cases hf : param.fallback with
    | none => exact ih hrest
    | some value =>
      refine (Expr.calmly_write hn (hparam value hf) .whole).bind fun _ => ?_
      exact (ih hrest).bind fun _ => failsOnly_pure _

theorem calmly_loopVariable {target : Expr} (h : target.QuietTexts) :
    FailsOnly Cause.Calm (loopVariable target) := by
  have other : Cause.Calm (.loopTarget target.kindName) :=
    List.forall_mem_singleton.2 (quiet_blank_kind h)
  match target with
  | .name id => trivial
  | .tuple _ | .list _ => exact (by decide : Cause.Calm .loopUnpacking)
  | .attribute .. | .constant _ | .call .. | .binary .. | .unary .. | .boolean .. | .compare ..
  | .conditional .. | .dict _ | .set _ | .subscript .. | .slice .. | .lambda .. | .template _
  | .starred _ | .unsupported _ => exact other

theorem calmly_loopHeader (hn : view.naming.QuietNames) {target iter : Expr}
    (ht : target.QuietTexts) (hi : iter.QuietTexts) (orelse : Block) :
    FailsOnly Cause.Calm (loopHeader view target iter orelse) := by
  cases orelse with
  | cons head rest => exact (by decide : Cause.Calm .loopElse)
  | nil =>
    simp only [loopHeader, List.isEmpty_nil, if_true]
    refine (calmly_loopVariable ht).bind fun key => ?_
    cases hr : loopReceiver iter with
    | error cause =>
      have hc : cause = .iteration iter.kindName := by
        unfold loopReceiver at hr
        split at hr
        · cases hr
        · cases hr
          rfl
      rw [hc]
      exact calm_quoting (by decide) (quiet_blank_kind hi)
    | ok receiver =>
      obtain ⟨keywords, rfl⟩ := loopReceiver_eq_ok.1 hr
      have hreceiver : receiver.QuietTexts :=
        (hi.inside (by simp [Expr.parts] : Expr.attribute receiver "keys" ∈ _)).inside
          (by simp [Expr.parts])
      exact (Expr.calmly_write hn hreceiver .whole).bind fun _ => failsOnly_pure _

theorem calmly_emitImports {names : List ImportedName}
    (h : ∀ imported ∈ names, Quiet imported.name) :
    FailsOnly Cause.Calm (emitImports names) := by
  induction names with
  | nil => exact failsOnly_pure _
  | cons imported rest ih =>
    obtain ⟨himported, hrest⟩ := List.forall_mem_cons.1 h
    rw [emitImports]
    by_cases hdot : imported.name.toList.contains '.' = true
    · simp only [hdot, if_true]
      exact calm_quoting (by decide) himported
    · simp only [hdot]
      exact (ih hrest).bind fun _ => failsOnly_pure _

/-! ## Statements -/

namespace Stmt

/-- The texts of a statement, without those of the statements in it, make no mark. -/
def QuietHere : Stmt → Prop
  | .classDef name bases _ => Quiet name ∧ ∀ base ∈ bases, base.QuietTexts
  | .functionDef name params decorators _ =>
    Quiet name ∧ (∀ decorator ∈ decorators, decorator.QuietTexts) ∧
      ∀ param ∈ params, Quiet param.name ∧ ∀ value ∈ param.fallback, value.QuietTexts
  | .assign targets value => value.QuietTexts ∧ ∀ target ∈ targets, target.QuietTexts
  | .declare target _ value => target.QuietTexts ∧ ∀ given ∈ value, given.QuietTexts
  | .update target _ value => target.QuietTexts ∧ value.QuietTexts
  | .branch test _ _ => test.QuietTexts
  | .forEach target iter _ _ => target.QuietTexts ∧ iter.QuietTexts
  | .whileLoop test _ _ => test.QuietTexts
  | .giveBack value => ∀ given ∈ value, given.QuietTexts
  | .expr value => value.QuietTexts
  | .importNames names => ∀ imported ∈ names, Quiet imported.name
  | .unsupported kind => Quiet kind
  | .attempt .. | .pass | .leaveLoop | .nextRound | .globalNames _ => True

/-- A statement that is refused for itself is refused with quiet texts. -/
theorem calmly_shell (site : Site) (hn : site.style.naming.QuietNames) {stmt : Stmt}
    (h : stmt.QuietHere) (scope : Scope) : Calmly (stmt.shell.emit site scope) := by
  match stmt with
  | .classDef name bases body =>
    rw [shell, emit]
    exact (failsOnly_orRefuse (calmly_classHeader hn h.1 h.2)).bind fun _ => failsOnly_pure _
  | .functionDef name params decorators body =>
    obtain ⟨hname, hdecorators, hparams⟩ := h
    have own (isMethod : Bool) : ∀ param ∈ ownParams isMethod params, param ∈ params := by
      intro param hm
      cases isMethod with
      | true => exact List.mem_of_mem_drop hm
      | false => exact hm
    rw [shell, emit]
    refine (failsOnly_orRefuse (calmly_staticDecorators hname hdecorators)).bind fun _ => ?_
    refine (failsOnly_orRefuse (calmly_checkParams fun param hm => ?_)).bind fun _ => ?_
    · exact (hparams param (own _ param hm)).1
    refine (failsOnly_orRefuse (calmly_emitGuards hn fun param hm => ?_)).bind fun _ => ?_
    · exact (hparams param (own _ param hm)).2
    exact failsOnly_pure _
  | .assign targets value =>
    simp only [shell, emit]
    refine (calmly_render hn h.1).bind fun _ => failsOnly_emitAssignments _ _ ?_ _
    exact fun target hm _ => failsOnly_orRefuse (calmly_renderTarget hn (h.2 target hm))
  | .declare target hint value =>
    simp only [shell, emit]
    exact failsOnly_emitDeclaration hint (failsOnly_orRefuse (calmly_renderTarget hn h.1))
      fun given hg => calmly_render hn (h.2 given hg)
  | .update target op value =>
    simp only [shell, emit]
    have token : Cause.Calm (.updateOperator op) := by
      cases op <;> decide
    exact failsOnly_emitUpdate (failsOnly_orRefuse (calmly_renderTarget hn h.1)) token
      (calmly_render hn h.2)
  | .branch test body orelse =>
    rw [shell, emit]
    exact (calmly_renderCondition hn h).bind fun _ => failsOnly_pure _
  | .forEach target iter body orelse =>
    rw [shell, emit]
    exact (failsOnly_orRefuse (calmly_loopHeader hn h.1 h.2 orelse)).bind fun _ => failsOnly_pure _
  | .whileLoop test body orelse =>
    rw [shell, emit]
    exact (calmly_renderCondition hn h).bind fun _ => failsOnly_pure _
  | .attempt _ _ (_ :: _) _ =>
    rw [shell, emit]
    exact (by decide : Cause.Calm .attemptElse)
  | .attempt _ _ [] _ =>
    rw [shell, emit]
    exact failsOnly_pure _
  | .giveBack (some value) =>
    simp only [shell, emit]
    exact (calmly_render hn (h value rfl)).bind fun _ => failsOnly_pure _
  | .expr value =>
    simp only [shell]
    cases hd : isDocText value with
    | true =>
      match value, hd with
      | .constant (.str _), _ =>
        rw [emit]
        exact failsOnly_pure _
    | false =>
      rw [emit]
      · exact (calmly_render hn h).bind fun _ => failsOnly_pure _
      · rintro text rfl
        cases hd
  | .importNames names =>
    simp only [shell, emit]
    exact (failsOnly_orRefuse (calmly_emitImports h)).bind fun _ => failsOnly_pure _
  | .unsupported kind =>
    simp only [shell, emit]
    exact List.forall_mem_singleton.2 h
  | .giveBack none | .pass | .leaveLoop | .nextRound | .globalNames _ =>
    simp only [shell, emit]
    exact failsOnly_pure _

end Stmt

/-! ## Scripts -/

theorem quietNames_builtin : Naming.builtin.QuietNames :=
  ⟨by decide +kernel, by decide +kernel⟩

variable {style : Style} {script : Block}

theorem faultsAt_emitScript (style : Style) (script : Block) :
    FaultsAt style (blockStatements .script script) (emitScript style script) :=
  (faultsAt_emitBlock { style } script _).bind_pure

theorem Refusal.message_of_line {r : Refusal} {line : Nat} (h : r.line = some line) :
    r.message = Cause.headline r.cause.construct? ++ r.cause.detail ++ lineText (some line) := by
  rw [message, h]

theorem getLast?_lineText (front : String) (line : Nat) :
    (front ++ lineText (some line)).toList.getLast? = some ')' := by
  rw [lineText, ← String.append_assoc, String.toList_append]
  exact List.getLast?_concat

/-- A message that does not end in a parenthesis does not end in a line. -/
theorem Refusal.message_ne_lineText {r : Refusal} {text : String} {back : List Char} {c : Char}
    (h : r.message = text ++ .ofList back) (hlast : back.getLast? = some c) (hc : c ≠ ')') :
    r.message = text ++ .ofList back ∧ ∀ front line, r.message ≠ front ++ lineText (some line) := by
  refine ⟨h, fun front line heq => hc ?_⟩
  have last := getLast?_lineText front line
  rw [← heq, h, String.toList_append, String.toList_ofList, List.getLast?_append, hlast] at last
  exact Option.some.inj last

theorem occurrences_lineText {front : String} (h : Quiet front) (line : Nat) :
    occurrences lineMark (front ++ lineText (some line)) = 1 := by
  have digits := not_mem_writeNat (by decide : ' '.isDigit = false) line
  rw [lineText, String.append_assoc, ← String.append_assoc]
  exact occurrences_mark h (by simp [digits])

/-- A refused script is refused for the first of its statements that is at fault itself, and the
message ends in the line of that statement, unless it quotes a text with the mark of a line. Then
the line is missing. If the texts of the script and of the tables are quiet, there is one mark. -/
theorem first_fault_gives_line {r : Refusal} (h : emitScript style script = .error r) :
    ∃ first, (blockStatements .script script).find? Placed.isFaulty = some first ∧
      (∃ scope, first.stmt.shell.emit ⟨style, first.body⟩ scope = .error { cause := r.cause }) ∧
      r.line = (if r.cause.quotes.any (occursIn lineMark) then none else some first.line) ∧
      (style.naming.QuietNames →
        (∀ placed ∈ blockStatements .script script, placed.stmt.QuietHere) →
          occurrences lineMark r.message = 1 ∧
            ∃ front, r.message = front ++ lineText (some first.line)) := by
  have faults := faultsAt_emitScript style script
  rw [h] at faults
  obtain ⟨first, hfirst, scope, cause, hcause, hr⟩ := faults
  rw [Refusal.atLine_new] at hr
  subst hr
  refine ⟨first, hfirst, ⟨scope, hcause⟩, rfl, fun hn hq => ?_⟩
  have calm : cause.Calm := by
    have own := Stmt.calmly_shell ⟨style, first.body⟩ hn
      (hq first (List.mem_of_find?_eq_some hfirst)) scope
    rw [hcause] at own
    exact own
  -- The blanks and parentheses around a quiet text make no mark with it, so none is quoted.
  have unquoted : ¬cause.quotes.any (occursIn lineMark) = true := by
    intro marked
    obtain ⟨quote, hm, hoccurs⟩ := List.any_eq_true.1 marked
    have unmarked := (calm quote (List.mem_append_right _ hm)).unmarked
    exact Bool.false_ne_true (unmarked.symm.trans hoccurs)
  rw [if_neg unquoted, Refusal.message_of_line rfl]
  exact ⟨occurrences_lineText (Cause.quiet_heading calm) first.line, _, rfl⟩

/-- A test in a chain of branches in a method. The line is that of the branch that it is the test
of. -/
theorem first_fault_gives_line_of_elif :
    let test : Expr := .call (.name "g") [] [⟨some "k", .constant (.int "1")⟩]
    let chain : Stmt := .branch (.name "x") [⟨4, .pass⟩] [⟨5, .branch test [⟨6, .pass⟩] []⟩]
    let method : Stmt := .functionDef "f" [{ name := "self" }] [] [⟨3, chain⟩]
    let script : Block := [⟨1, .classDef "A" [] [⟨2, method⟩]⟩, ⟨7, .expr test⟩]
    ∃ r, emitScript {} script = .error r ∧
      occurrences lineMark r.message = 1 ∧ ∃ front, r.message = front ++ lineText (some 5) := by
  intro test chain method script
  obtain ⟨r, run⟩ : ∃ r, emitScript {} script = .error r := ⟨_, rfl⟩
  obtain ⟨first, hfirst, -, -, hquiet⟩ := first_fault_gives_line run
  have htest : test.QuietTexts := by
    refine .node trivial fun part hm => ?_
    have parts : part = .name "g" ∨ part = .constant (.int "1") := by
      simpa [test, Expr.parts] using hm
    rcases parts with rfl | rfl
    · exact .node (by decide : Quiet "g") fun _ h => by cases h
    · exact .node (by decide : Quiet "1") fun _ h => by cases h
  have hx : (Expr.name "x").QuietTexts := .node (by decide : Quiet "x") fun _ h => by cases h
  have texts : ∀ placed ∈ blockStatements .script script, placed.stmt.QuietHere := by
    have names : Quiet "A" ∧ Quiet "f" ∧ Quiet "self" := by decide
    simp [script, method, chain, blockStatements, Stmt.inner, Stmt.QuietHere, hx, htest, names]
  have found : (blockStatements .script script).find? Placed.isFaulty =
      some ⟨.functionBody, 5, .branch test [⟨6, .pass⟩] []⟩ := rfl
  obtain rfl := Option.some.inj (hfirst.symm.trans found)
  exact ⟨r, run, hquiet quietNames_builtin texts⟩

/-- A parenthesis and a name behind it make a mark that stands in no text of the script. -/
theorem line_hidden_by_operand :
    let sum : Expr := .binary (.name "x") .add (.binary (.name "line") .add (.constant (.int "1")))
    let script : Block := [⟨1, .expr (.call sum [] [⟨some "k", .constant (.int "1")⟩])⟩]
    (∀ text ∈ ["x", "line", "1", "k"], Unmarked text) ∧ Naming.builtin.QuietNames ∧
      ∃ r, emitScript {} script = .error r ∧
        r.message = "unsupported construct `keyword_argument`: keyword arguments in call to " ++
          "`(x + (line + 1))`" ∧
        ∀ front line, r.message ≠ front ++ lineText (some line) :=
  ⟨by decide, quietNames_builtin, _, rfl,
    Refusal.message_ne_lineText (by decide +kernel) rfl (by decide)⟩

/-- The line of a refusal is missing exactly if the explanation quotes a text with the mark of a
line. If it is there, then it is the line of a statement and the message ends in it. -/
theorem line_missing_iff_quoted {r : Refusal} (h : emitScript style script = .error r) :
    (r.line = none ↔ ∃ quote ∈ r.cause.quotes, occursIn lineMark quote = true) ∧
      ∀ line, r.line = some line →
        (∃ placed ∈ blockStatements .script script, placed.line = line) ∧
          ∃ front, r.message = front ++ lineText (some line) := by
  have faults := faultsAt_emitScript style script
  rw [h] at faults
  obtain ⟨first, hfirst, -, cause, -, hr⟩ := faults
  rw [Refusal.atLine_new] at hr
  subst hr
  rw [← List.any_eq_true]
  refine ⟨by simp, fun line hline => ⟨⟨first, List.mem_of_find?_eq_some hfirst, ?_⟩, _,
    Refusal.message_of_line hline⟩⟩
  split at hline
  · cases hline
  · exact Option.some.inj hline

/-- A string that is no part of the callee may hold the mark. -/
theorem line_missing_iff_quoted_of_argument :
    let script : Block := [⟨3, .expr (.call (.name "f") [.constant (.str " (line ")]
      [⟨some "k", .constant (.int "1")⟩])⟩]
    ∃ r, emitScript {} script = .error r ∧ r.line = some 3 ∧
      ∃ front, r.message = front ++ lineText (some 3) := by
  intro script
  obtain ⟨r, run⟩ : ∃ r, emitScript {} script = .error r := ⟨_, rfl⟩
  have line : r.line = some 3 := by
    cases run
    rfl
  exact ⟨r, run, line, ((line_missing_iff_quoted run).2 3 line).2⟩

/-- A string that the callee is a method of hides the line. -/
theorem line_hidden_by_string :
    let callee : Expr := .attribute (.constant (.str "a (line b")) "f"
    let script : Block := [⟨1, .expr (.call callee [] [⟨some "k", .constant (.int "1")⟩])⟩]
    ∃ r, emitScript {} script = .error r ∧
      r.message = "unsupported construct `keyword_argument`: keyword arguments in call to " ++
        "`'a (line b'.f`" ∧
      ∀ front line, r.message ≠ front ++ lineText (some line) :=
  ⟨_, rfl, Refusal.message_ne_lineText (by decide +kernel) rfl (by decide)⟩

end Berrify
