import Berrify.Failure
import Berrify.Proofs.Expr.Verdict
import Berrify.Proofs.Stmt.Emission

/-!
# Whether a script is refused

The style and the scope decide what is written, never whether. Two runs of the emitter over the same
statements come to the same verdict (`Stmt.verdict_emit`, `verdict_emitBlock`), whatever name
tables, scope modes and scopes they start from, as long as both stand in the same kind of body : the
kind of body decides whether a function has a receiver, and that is the only part of a site that a
check looks at.

So a script is accepted in every style or in none, and all styles refuse the same construct
(`acceptance_independent_of_style`).
-/

namespace Berrify

variable {site site' : Site}

/-! ## Assignments -/

theorem verdict_renderTarget (v w : View) (target : Expr) :
    verdict Cause.construct? (renderTarget v target) =
      verdict Cause.construct? (renderTarget w target) := by
  match target with
  | .name _ => rfl
  | .attribute value attr => exact Expr.verdict_render v w (.attribute value attr)
  | .subscript value index =>
    have hindex : verdict Cause.construct? (index.renderIndex v) =
        verdict Cause.construct? (index.renderIndex w) := Expr.concurs v w index .index
    cases hv : index.renderIndex v with
    | ok a =>
      cases hw : index.renderIndex w with
      | ok b =>
        simp only [renderTarget, hv, hw, pure_bind]
        exact verdict_bind_pure (Expr.verdict_render v w value)
      | error cause =>
        rw [hv, hw] at hindex
        cases hindex
    | error cause =>
      cases hw : index.renderIndex w with
      | ok b =>
        rw [hv, hw] at hindex
        cases hindex
      -- Both causes are wrapped, and what wraps them is about no construct.
      | error cause' =>
        simp only [renderTarget, hv, hw]
        rfl
  | .constant _ | .call .. | .binary .. | .unary .. | .boolean .. | .compare .. | .conditional ..
  | .dict _ | .list _ | .tuple _ | .set _ | .slice .. | .lambda .. | .template _ | .starred _
  | .unsupported _ => rfl

theorem verdict_emitAssignment (s t : Scope) (target : Expr) (value value' : String)
    (kind kind' : Container) :
    verdict Refusal.construct? (emitAssignment site s target value kind) =
      verdict Refusal.construct? (emitAssignment site' t target value' kind') := by
  refine verdict_bind_pure ?_
  rw [verdict_orRefuse, verdict_orRefuse]
  exact verdict_renderTarget _ _ target

theorem verdict_emitAssignments (value value' : String) (kind kind' : Container) :
    ∀ (targets : List Expr) (s t : Scope),
      verdict Refusal.construct? (emitAssignments site value kind targets s) =
        verdict Refusal.construct? (emitAssignments site' value' kind' targets t)
  | [], _, _ => rfl
  | target :: rest, s, t => by
    rw [emitAssignments, emitAssignments]
    refine verdict_bind (verdict_emitAssignment s t target value value' kind kind')
      fun _ _ _ _ => ?_
    exact verdict_bind_pure (verdict_emitAssignments value value' kind kind' rest _ _)

/-- A declaration without a value fails only in its target : whether it writes a line depends on the
scope, that it ends well does not. -/
theorem verdict_emitBareDeclaration (s : Scope) (target : Expr) (kind : Container) :
    verdict Refusal.construct? (emitBareDeclaration site s target kind) =
      verdict Cause.construct? (renderTarget (site.view s) target) := by
  rw [← verdict_orRefuse]
  cases hb : isBareName target with
  | true =>
    obtain ⟨id, rfl⟩ := exists_of_isBareName hb
    cases hd : s.declaresHere id <;> simp only [emitBareDeclaration, hd] <;> rfl
  | false =>
    rw [emitBareDeclaration_of_not_isBareName kind hb]
    cases orRefuse (renderTarget (site.view s) target) <;> rfl

theorem verdict_emitDeclaration (s t : Scope) (target hint : Expr) (value : Option Expr) :
    verdict Refusal.construct? (emitDeclaration site s target hint value) =
      verdict Refusal.construct? (emitDeclaration site' t target hint value) := by
  cases value with
  | none =>
    rw [emitDeclaration, emitDeclaration, verdict_emitBareDeclaration, verdict_emitBareDeclaration]
    exact verdict_renderTarget _ _ target
  | some value =>
    rw [emitDeclaration, emitDeclaration]
    refine verdict_bind ?_ fun _ _ _ _ => verdict_emitAssignment s t target _ _ _ _
    rw [verdict_orRefuse, verdict_orRefuse]
    exact Expr.verdict_render _ _ value

theorem verdict_emitUpdate (s t : Scope) (target : Expr) (op : BinaryOp) (value : Expr) :
    verdict Refusal.construct? (emitUpdate site s target op value) =
      verdict Refusal.construct? (emitUpdate site' t target op value) := by
  unfold emitUpdate
  refine verdict_bind ?_ fun _ _ _ _ => ?_
  · rw [verdict_orRefuse, verdict_orRefuse]
    exact verdict_renderTarget _ _ target
  · cases op.target? with
    | none => rfl
    | some token =>
      refine verdict_bind_pure ?_
      rw [verdict_orRefuse, verdict_orRefuse]
      exact Expr.verdict_render _ _ value

/-! ## Headers -/

theorem verdict_classHeader (v w : View) (name : String) (bases : List Expr) :
    verdict Cause.construct? (classHeader v name bases) =
      verdict Cause.construct? (classHeader w name bases) := by
  unfold classHeader
  match properBases bases with
  | [] => rfl
  | [base] => exact verdict_bind_pure (Expr.verdict_render v w base)
  | _ :: _ :: _ => rfl

theorem verdict_emitGuards (v w : View) : ∀ params : List Param,
    verdict Cause.construct? (emitGuards v params) = verdict Cause.construct? (emitGuards w params)
  | [] => rfl
  | param :: rest => by
    rw [emitGuards, emitGuards]
    cases param.fallback with
    | none => exact verdict_emitGuards v w rest
    | some value =>
      refine verdict_bind (Expr.verdict_render v w value) fun _ _ _ _ => ?_
      exact verdict_bind_pure (verdict_emitGuards v w rest)

theorem verdict_loopHeader (v w : View) (target iter : Expr) (orelse : Block) :
    verdict Cause.construct? (loopHeader v target iter orelse) =
      verdict Cause.construct? (loopHeader w target iter orelse) := by
  cases orelse with
  | cons head rest =>
    have refused (view : View) :
        loopHeader view target iter (head :: rest) = throw .loopElse := rfl
    rw [refused, refused]
  | nil =>
    simp only [loopHeader, List.isEmpty_nil, if_true]
    refine verdict_bind_congr fun key => verdict_bind_congr fun receiver => ?_
    exact verdict_bind_pure (Expr.verdict_render v w receiver)

/-! ## Statements -/

mutual
/-- The verdict on a statement depends neither on the style nor on the scope. -/
theorem Stmt.verdict_emit {site site' : Site} (hbody : site.body = site'.body) (stmt : Stmt)
    (s t : Scope) :
    verdict Refusal.construct? (stmt.emit site s) =
      verdict Refusal.construct? (stmt.emit site' t) := by
  match stmt with
  | .classDef name bases body =>
    rw [Stmt.emit, Stmt.emit]
    refine verdict_bind ?_ fun _ _ _ _ => ?_
    · rw [verdict_orRefuse, verdict_orRefuse]
      exact verdict_classHeader _ _ name bases
    · have inner : (site.within .classBody).body = (site'.within .classBody).body := rfl
      exact verdict_bind_pure (verdict_emitBlock inner body _ _)
  | .functionDef name params decorators body =>
    simp only [Stmt.emit, hbody]
    refine verdict_bind_congr fun isStatic => verdict_bind_congr fun _ => ?_
    refine verdict_bind ?_ fun _ _ _ _ => ?_
    · rw [verdict_orRefuse, verdict_orRefuse]
      exact verdict_emitGuards _ _ _
    · have inner : (site.within .functionBody).body = (site'.within .functionBody).body := rfl
      exact verdict_bind_pure (verdict_emitBlock inner body _ _)
  | .assign targets value =>
    rw [Stmt.emit, Stmt.emit]
    refine verdict_bind ?_ fun _ _ _ _ => verdict_emitAssignments _ _ _ _ targets s t
    rw [verdict_orRefuse, verdict_orRefuse]
    exact Expr.verdict_render _ _ value
  | .declare target hint value =>
    rw [Stmt.emit, Stmt.emit]
    exact verdict_emitDeclaration s t target hint value
  | .update target op value =>
    rw [Stmt.emit, Stmt.emit]
    exact verdict_emitUpdate s t target op value
  | .branch test body orelse =>
    rw [Stmt.emit, Stmt.emit]
    refine verdict_bind ?_ fun _ _ _ _ => ?_
    · rw [verdict_orRefuse, verdict_orRefuse]
      exact Expr.verdict_renderCondition _ _ test
    · refine verdict_bind (verdict_emitBlock hbody body s t) fun _ _ _ _ => ?_
      exact verdict_bind_pure (verdict_emitOtherwise hbody orelse _ _)
  | .forEach target iter body orelse =>
    rw [Stmt.emit, Stmt.emit]
    refine verdict_bind ?_ fun _ _ _ _ => verdict_bind_pure (verdict_emitBlock hbody body _ _)
    rw [verdict_orRefuse, verdict_orRefuse]
    exact verdict_loopHeader _ _ target iter orelse
  | .whileLoop test body orelse =>
    rw [Stmt.emit, Stmt.emit]
    refine verdict_bind ?_ fun _ _ _ _ => ?_
    · rw [verdict_orRefuse, verdict_orRefuse]
      exact Expr.verdict_renderCondition _ _ test
    · refine verdict_bind (verdict_emitBlock hbody body s t) fun _ _ _ _ => ?_
      exact verdict_bind_pure (verdict_emitBlock hbody orelse _ _)
  | .attempt _ _ (_ :: _) _ =>
    rw [Stmt.emit, Stmt.emit]
    rfl
  | .attempt body handlers [] cleanup =>
    simp only [Stmt.emit, List.isEmpty_nil, if_true]
    refine verdict_bind (verdict_emitBlock hbody body s t) fun _ _ _ _ => ?_
    refine verdict_bind (verdict_emitHandlers hbody handlers _ _) fun _ _ _ _ => ?_
    exact verdict_bind_pure (verdict_emitBlock hbody cleanup _ _)
  | .giveBack none =>
    rw [Stmt.emit, Stmt.emit]
    rfl
  | .giveBack (some value) =>
    rw [Stmt.emit, Stmt.emit]
    refine verdict_bind_pure ?_
    rw [verdict_orRefuse, verdict_orRefuse]
    exact Expr.verdict_render _ _ value
  | .expr value =>
    have written : verdict Refusal.construct? (do
          return Emitted.line s (← orRefuse (value.render (site.view s)))) =
        verdict Refusal.construct? (do
          return Emitted.line t (← orRefuse (value.render (site'.view t)))) := by
      refine verdict_bind_pure ?_
      rw [verdict_orRefuse, verdict_orRefuse]
      exact Expr.verdict_render _ _ value
    cases hd : isDocText value with
    | true =>
      match value, hd with
      | .constant (.str _), _ =>
        rw [Stmt.emit, Stmt.emit]
        rfl
    | false =>
      rw [Stmt.emit, Stmt.emit]
      · exact written
      · rintro text rfl
        cases hd
      · rintro text rfl
        cases hd
  | .importNames names =>
    rw [Stmt.emit, Stmt.emit]
    exact verdict_bind_pure rfl
  | .pass | .leaveLoop | .nextRound | .globalNames _ =>
    rw [Stmt.emit, Stmt.emit]
    rfl
  | .unsupported _ => rw [Stmt.emit, Stmt.emit]
termination_by (sizeOf stmt, 0)
theorem verdict_emitBlock {site site' : Site} (hbody : site.body = site'.body) (b : Block)
    (s t : Scope) :
    verdict Refusal.construct? (emitBlock site b s) =
      verdict Refusal.construct? (emitBlock site' b t) := by
  match b with
  | [] =>
    rw [emitBlock, emitBlock]
    rfl
  | ⟨n, stmt⟩ :: rest =>
    rw [emitBlock, emitBlock]
    refine verdict_bind ?_ fun _ _ _ _ => verdict_bind_pure (verdict_emitBlock hbody rest _ _)
    rw [verdict_locate, verdict_locate]
    exact stmt.verdict_emit hbody s t
termination_by (sizeOf b, 0)
theorem verdict_emitOtherwise {site site' : Site} (hbody : site.body = site'.body) (b : Block)
    (s t : Scope) :
    verdict Refusal.construct? (emitOtherwise site b s) =
      verdict Refusal.construct? (emitOtherwise site' b t) := by
  cases he : isElif b with
  | true =>
    obtain ⟨n, test, body, orelse, hb⟩ := exists_of_isElif he
    have smaller : sizeOf body < sizeOf b ∧ sizeOf orelse < sizeOf b := by
      rw [hb]
      simp
      omega
    rw [hb, emitOtherwise, emitOtherwise]
    refine verdict_bind ?_ fun _ _ _ _ => ?_
    · rw [verdict_locate, verdict_locate, verdict_orRefuse, verdict_orRefuse]
      exact Expr.verdict_renderCondition _ _ test
    · refine verdict_bind (verdict_emitBlock hbody body s t) fun _ _ _ _ => ?_
      exact verdict_bind_pure (verdict_emitOtherwise hbody orelse _ _)
  | false =>
    by_cases hb : b = []
    · subst hb
      rw [emitOtherwise, emitOtherwise]
      rfl
    · rw [emitOtherwise_of_not_isElif he hb, emitOtherwise_of_not_isElif he hb]
      exact verdict_bind_pure (verdict_emitBlock hbody b s t)
termination_by (sizeOf b, 1)
decreasing_by
  · exact .right _ Nat.zero_lt_one
  · exact .left _ _ smaller.1
  · exact .left _ _ smaller.2
theorem verdict_emitHandlers {site site' : Site} (hbody : site.body = site'.body)
    (handlers : List (Handler Block)) (s t : Scope) :
    verdict Refusal.construct? (emitHandlers site handlers s) =
      verdict Refusal.construct? (emitHandlers site' handlers t) := by
  match handlers with
  | [] =>
    rw [emitHandlers, emitHandlers]
    rfl
  | ⟨caught, name, body⟩ :: rest =>
    rw [emitHandlers, emitHandlers]
    refine verdict_bind (verdict_emitBlock hbody body _ _) fun _ _ _ _ => ?_
    exact verdict_bind_pure (verdict_emitHandlers hbody rest _ _)
termination_by (sizeOf handlers, 0)
end

/-! ## Scripts -/

theorem verdict_emitScript (style style' : Style) (script : Block) :
    verdict Refusal.construct? (emitScript style script) =
      verdict Refusal.construct? (emitScript style' script) := by
  unfold emitScript
  have sites : (⟨style, .script⟩ : Site).body = (⟨style', .script⟩ : Site).body := rfl
  exact verdict_bind_pure (verdict_emitBlock sites script _ _)

/-- A script is accepted in every style or in none : name tables, scope mode and the declaration of
fields play no part in it. Where it is refused, all styles refuse it for the same kind of failure
and for the same construct. -/
theorem acceptance_independent_of_style (style style' : Style) (script : Block) :
    ((∃ text, emitScript style script = .ok text) ↔ ∃ text, emitScript style' script = .ok text) ∧
      ∀ r r', emitScript style script = .error r → emitScript style' script = .error r' →
        (Failure.refused r).kind = (Failure.refused r').kind ∧
          r.cause.construct? = r'.cause.construct? := by
  have same := verdict_emitScript style style' script
  refine ⟨?_, fun r r' h h' => ?_⟩
  · rw [← verdict_eq_none, ← verdict_eq_none, same]
  · rw [h, h'] at same
    have construct : r.cause.construct? = r'.cause.construct? := Option.some.inj same
    refine ⟨?_, construct⟩
    rw [Failure.kind, Failure.kind, construct]

/-- A named argument is refused under the name that is called in each style. -/
theorem acceptance_independent_of_style_named_argument :
    let script : Block := [⟨1, .expr (.call (.name "dict") [] [⟨some "x", .name "y"⟩])⟩]
    let plain : Style := { naming := {}, scopeMode := .flat, declareMembers := true }
    ∃ r r', emitScript {} script = .error r ∧ emitScript plain script = .error r' ∧
      r.cause = .keywordArgument "map" ∧ r'.cause = .keywordArgument "dict" ∧
      r.cause.construct? = r'.cause.construct? := by
  intro script plain
  obtain ⟨r, run, hr⟩ : ∃ r, emitScript {} script = .error r ∧ r.cause = .keywordArgument "map" :=
    ⟨⟨.keywordArgument "map", some 1⟩, by decide, rfl⟩
  obtain ⟨r', run', hr'⟩ :
      ∃ r, emitScript plain script = .error r ∧ r.cause = .keywordArgument "dict" :=
    ⟨⟨.keywordArgument "dict", some 1⟩, by decide, rfl⟩
  have same := (acceptance_independent_of_style {} plain script).2 r r' run run'
  exact ⟨r, r', run, run', hr, hr', same.2⟩

end Berrify
