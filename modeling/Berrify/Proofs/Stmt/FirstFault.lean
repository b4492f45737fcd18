import Berrify.Proofs.Refusal
import Berrify.Proofs.Stmt.Verdict

/-!
# The statement that is to blame

A script is refused for one of its statements, and not for those around that one. `Stmt.shell` is a
statement without the statements in it, and it is at fault itself if its shell is refused
(`Placed.isFaulty`). `blockStatements` lists all statements of a block in the order in which they
are emitted, each in front of those in it.

The emitter stops at the first statement of that list that is at fault, with the cause for which its
shell is refused and with its line (`faultsAt_emitBlock`). The lines of the statements around it
come too late, since a refusal keeps the line that it got first.
-/

namespace Berrify

/-! ## Statements without the statements in them -/

/-- A statement without the statements in it. Where there must be none, what is there stays. -/
def Stmt.shell : Stmt → Stmt
  | .classDef name bases _ => .classDef name bases []
  | .functionDef name params decorators _ => .functionDef name params decorators []
  | .branch test _ _ => .branch test [] []
  | .forEach target iter _ orelse => .forEach target iter [] orelse
  | .whileLoop test _ _ => .whileLoop test [] []
  | .attempt _ _ orelse _ => .attempt [] [] orelse []
  | stmt => stmt

/-- A statement with its line and the body that it stands in. -/
structure Placed where
  body : FrameKind
  line : Nat
  stmt : Stmt

mutual
/-- The statements in a statement, in the order in which they are emitted. -/
def Stmt.inner (body : FrameKind) : Stmt → List Placed
  | .classDef _ _ block => blockStatements .classBody block
  | .functionDef _ _ _ block => blockStatements .functionBody block
  | .branch _ block orelse => blockStatements body block ++ blockStatements body orelse
  | .forEach _ _ block _ => blockStatements body block
  | .whileLoop _ block orelse => blockStatements body block ++ blockStatements body orelse
  | .attempt block handlers _ cleanup =>
    blockStatements body block ++ (handlerStatements body handlers ++ blockStatements body cleanup)
  | _ => []
/-- The statements of a block, each in front of those in it. -/
def blockStatements (body : FrameKind) : List (Located Stmt) → List Placed
  | [] => []
  | ⟨line, stmt⟩ :: rest => (⟨body, line, stmt⟩ :: stmt.inner body) ++ blockStatements body rest
/-- The statements of handlers. -/
def handlerStatements (body : FrameKind) : List (Handler (List (Located Stmt))) → List Placed
  | [] => []
  | ⟨_, _, block⟩ :: rest => blockStatements body block ++ handlerStatements body rest
end

/-- Whether a statement is at fault itself. -/
def Placed.isFaulty (placed : Placed) : Bool :=
  (verdict Refusal.construct? (placed.stmt.shell.emit ⟨{}, placed.body⟩ default)).isSome

/-- A statement is at fault in every style and scope or in none. -/
theorem Placed.isFaulty_eq (placed : Placed) (style : Style) (scope : Scope) :
    placed.isFaulty =
      (verdict Refusal.construct? (placed.stmt.shell.emit ⟨style, placed.body⟩ scope)).isSome := by
  have bodies : (⟨{}, placed.body⟩ : Site).body = (⟨style, placed.body⟩ : Site).body := rfl
  rw [isFaulty, placed.stmt.shell.verdict_emit bodies default scope]

/-! ## The first fault -/

variable {α β : Type} {style : Style} {statements others : List Placed}

/-- A computation over statements fails for the first of them that is at fault, and succeeds if
there is none. -/
def FaultsAt (style : Style) (statements : List Placed) : Except Refusal α → Prop
  | .ok _ => statements.find? Placed.isFaulty = none
  | .error r => ∃ first, statements.find? Placed.isFaulty = some first ∧
      ∃ scope cause, first.stmt.shell.emit ⟨style, first.body⟩ scope = .error { cause } ∧
        r = ({ cause } : Refusal).atLine first.line

theorem FaultsAt.bind {x : Except Refusal α} {f : α → Except Refusal β}
    (hx : FaultsAt style statements x) (hf : ∀ a, FaultsAt style others (f a)) :
    FaultsAt style (statements ++ others) (x >>= f) := by
  cases x with
  | ok a =>
    have skipped : (statements ++ others).find? Placed.isFaulty = others.find? Placed.isFaulty := by
      rw [List.find?_append, show statements.find? _ = none from hx, Option.none_or]
    have rest := hf a
    change FaultsAt style (statements ++ others) (f a)
    cases hr : f a with
    | ok b =>
      rw [hr] at rest
      exact skipped.trans rest
    | error r =>
      rw [hr] at rest
      obtain ⟨first, hfirst, hfault⟩ := rest
      exact ⟨first, skipped.trans hfirst, hfault⟩
  | error r =>
    obtain ⟨first, hfirst, hfault⟩ := hx
    refine ⟨first, ?_, hfault⟩
    rw [List.find?_append, hfirst, Option.some_or]

/-- A last step that only puts the result together. -/
theorem FaultsAt.bind_pure {x : Except Refusal α} {f : α → β} (hx : FaultsAt style statements x) :
    FaultsAt style statements (x >>= fun a => pure (f a)) := by
  cases x with
  | ok a => exact hx
  | error r => exact hx

theorem faultsAt_pure (a : α) : FaultsAt style [] (pure a : Except Refusal α) :=
  rfl

/-- A statement is refused for itself, or else the statements in it decide. -/
def Parted (style : Style) (inner : List Placed) (whole shell : Except Refusal Emitted) : Prop :=
  (∃ cause, whole = .error { cause } ∧ shell = .error { cause }) ∨
    (∃ emitted, shell = .ok emitted) ∧ FaultsAt style inner whole

/-- A step that a statement and its shell share. -/
theorem parted_bind {inner : List Placed} {x : Except Cause α} {f g : α → Except Refusal Emitted}
    (h : ∀ a, Parted style inner (f a) (g a)) :
    Parted style inner (orRefuse x >>= f) (orRefuse x >>= g) := by
  cases x with
  | ok a => exact h a
  | error cause => exact .inl ⟨cause, rfl, rfl⟩

/-- The statements in a statement, when its own steps are done. -/
theorem parted_inner {inner : List Placed} {whole shell : Except Refusal Emitted}
    {emitted : Emitted} (hs : shell = .ok emitted) (hw : FaultsAt style inner whole) :
    Parted style inner whole shell :=
  .inr ⟨⟨emitted, hs⟩, hw⟩

/-- A computation whose refusals have no line yet. -/
def Lineless (x : Except Refusal α) : Prop :=
  FailsOnly (·.line = none) x

theorem lineless_orRefuse (x : Except Cause α) : Lineless (orRefuse x) :=
  failsOnly_orRefuse (failsOnly_of_forall (fun _ => rfl) x)

/-- A statement with none in it is its own shell. -/
theorem parted_self {x : Except Refusal Emitted} (h : Lineless x) : Parted style [] x x := by
  cases x with
  | ok emitted => exact parted_inner rfl rfl
  | error r =>
    obtain ⟨cause, line⟩ := r
    obtain rfl : line = none := h
    exact .inl ⟨cause, rfl, rfl⟩

theorem parted_leaf {body : FrameKind} {stmt : Stmt} {scope : Scope} (hs : stmt.shell = stmt)
    (hi : stmt.inner body = []) (hl : Lineless (stmt.emit ⟨style, body⟩ scope)) :
    Parted style (stmt.inner body) (stmt.emit ⟨style, body⟩ scope)
      (stmt.shell.emit ⟨style, body⟩ scope) := by
  rw [hs, hi]
  exact parted_self hl

/-- A statement at fault is the first one if it stands in front. -/
theorem find?_of_shell_error {placed : Placed} {scope : Scope} {r : Refusal}
    (h : placed.stmt.shell.emit ⟨style, placed.body⟩ scope = .error r) :
    (placed :: statements).find? Placed.isFaulty = some placed := by
  refine List.find?_cons_of_pos ?_
  rw [placed.isFaulty_eq style scope, h]
  rfl

theorem find?_of_shell_ok {placed : Placed} {scope : Scope} {emitted : Emitted}
    (h : placed.stmt.shell.emit ⟨style, placed.body⟩ scope = .ok emitted) :
    (placed :: statements).find? Placed.isFaulty = statements.find? Placed.isFaulty := by
  refine List.find?_cons_of_neg ?_
  rw [placed.isFaulty_eq style scope, h]
  exact Bool.false_ne_true

/-- A statement that is not at fault leaves it to the next ones. -/
theorem FaultsAt.cons {placed : Placed} {scope : Scope} {emitted : Emitted}
    (hs : placed.stmt.shell.emit ⟨style, placed.body⟩ scope = .ok emitted)
    {x : Except Refusal α} (hx : FaultsAt style statements x) :
    FaultsAt style (placed :: statements) x := by
  cases x with
  | ok a => exact (find?_of_shell_ok hs).trans hx
  | error r =>
    obtain ⟨first, hfirst, hfault⟩ := hx
    exact ⟨first, (find?_of_shell_ok hs).trans hfirst, hfault⟩

/-- A refusal that has its line is left as it is. -/
theorem FaultsAt.locate {x : Except Refusal α} (hx : FaultsAt style statements x) (line : Nat) :
    FaultsAt style statements (locate line x) := by
  cases x with
  | ok a => exact hx
  | error r =>
    obtain ⟨first, hfirst, scope, cause, hcause, rfl⟩ := hx
    exact ⟨first, hfirst, scope, cause, hcause, Refusal.atLine_atLine _ _ _⟩

/-- A statement gives its line to its own fault, and leaves that of a statement in it. -/
theorem Parted.locate {body : FrameKind} {stmt : Stmt} {scope : Scope}
    (h : Parted style (stmt.inner body) (stmt.emit ⟨style, body⟩ scope)
      (stmt.shell.emit ⟨style, body⟩ scope)) (line : Nat) :
    FaultsAt style (⟨body, line, stmt⟩ :: stmt.inner body)
      (locate line (stmt.emit ⟨style, body⟩ scope)) := by
  rcases h with ⟨cause, hw, hs⟩ | ⟨⟨emitted, hs⟩, hw⟩
  · rw [hw]
    exact ⟨⟨body, line, stmt⟩, find?_of_shell_error hs, scope, cause, hs, rfl⟩
  · exact (hw.locate line).cons hs

/-- The own step of a statement that gets its line at once. -/
theorem faultsAt_test (placed : Placed) {scope : Scope} {x : Except Cause α} {g : α → Emitted}
    (hs : placed.stmt.shell.emit ⟨style, placed.body⟩ scope =
      orRefuse x >>= fun a => pure (g a))
    {f : α → Except Refusal β} (hf : ∀ a, FaultsAt style statements (f a)) :
    FaultsAt style (placed :: statements) (locate placed.line (orRefuse x) >>= f) := by
  cases x with
  | ok a => exact (hf a).cons hs
  | error cause => exact ⟨placed, find?_of_shell_error hs, scope, cause, hs, rfl⟩

/-! ## Assignments

An assignment fails only in its target or in its value. -/

variable {site : Site} {bad : Refusal → Prop}

theorem failsOnly_emitAssignment {scope : Scope} {target : Expr}
    (h : FailsOnly bad (orRefuse (renderTarget (site.view scope) target))) (value : String)
    (kind : Container) : FailsOnly bad (emitAssignment site scope target value kind) :=
  h.bind fun _ => failsOnly_pure _

theorem failsOnly_emitAssignments (value : String) (kind : Container) {targets : List Expr}
    (h : ∀ target ∈ targets, ∀ scope,
      FailsOnly bad (orRefuse (renderTarget (site.view scope) target))) (scope : Scope) :
    FailsOnly bad (emitAssignments site value kind targets scope) := by
  induction targets generalizing scope with
  | nil => exact failsOnly_pure _
  | cons target rest ih =>
    obtain ⟨htarget, hrest⟩ := List.forall_mem_cons.1 h
    rw [emitAssignments]
    refine (failsOnly_emitAssignment (htarget scope) value kind).bind fun first => ?_
    exact (ih hrest first.scope).bind fun _ => failsOnly_pure _

theorem failsOnly_emitDeclaration {scope : Scope} {target : Expr} (hint : Expr)
    {value : Option Expr}
    (h : FailsOnly bad (orRefuse (renderTarget (site.view scope) target)))
    (hv : ∀ given ∈ value, FailsOnly bad (orRefuse (given.render (site.view scope)))) :
    FailsOnly bad (emitDeclaration site scope target hint value) := by
  cases value with
  | none =>
    rw [emitDeclaration]
    cases hb : isBareName target with
    | true =>
      obtain ⟨id, rfl⟩ := exists_of_isBareName hb
      refine h.bind fun _ => ?_
      change FailsOnly bad (if _ then _ else _)
      split
      · exact failsOnly_pure _
      · exact failsOnly_pure _
    | false =>
      rw [emitBareDeclaration_of_not_isBareName _ hb]
      exact h.bind fun _ => failsOnly_pure _
  | some value => exact (hv value rfl).bind fun _ => failsOnly_emitAssignment h _ _

theorem failsOnly_emitUpdate {scope : Scope} {target value : Expr} {op : BinaryOp}
    (h : FailsOnly bad (orRefuse (renderTarget (site.view scope) target)))
    (hop : bad { cause := .updateOperator op })
    (hv : FailsOnly bad (orRefuse (value.render (site.view scope)))) :
    FailsOnly bad (emitUpdate site scope target op value) := by
  refine h.bind fun _ => ?_
  cases op.target? with
  | none => exact hop
  | some token => exact hv.bind fun _ => failsOnly_pure _

/-! ## Statements -/

mutual
/-- A statement is refused for itself or for a statement in it. -/
theorem Stmt.parted_emit (site : Site) (stmt : Stmt) (scope : Scope) :
    Parted site.style (stmt.inner site.body) (stmt.emit site scope)
      (stmt.shell.emit site scope) := by
  match stmt with
  | .classDef name bases body =>
    rw [Stmt.shell, Stmt.inner, Stmt.emit, Stmt.emit]
    refine parted_bind fun _ => parted_inner rfl ?_
    exact (faultsAt_emitBlock (site.within .classBody) body _).bind_pure
  | .functionDef name params decorators body =>
    rw [Stmt.shell, Stmt.inner, Stmt.emit, Stmt.emit]
    refine parted_bind fun _ => parted_bind fun _ => parted_bind fun _ => parted_inner rfl ?_
    exact (faultsAt_emitBlock (site.within .functionBody) body _).bind_pure
  | .branch test body orelse =>
    rw [Stmt.shell, Stmt.inner, Stmt.emit, Stmt.emit]
    refine parted_bind fun _ => parted_inner rfl ?_
    refine (faultsAt_emitBlock site body _).bind fun _ => ?_
    exact (faultsAt_emitOtherwise site orelse _).bind_pure
  | .forEach target iter body orelse =>
    rw [Stmt.shell, Stmt.inner, Stmt.emit, Stmt.emit]
    refine parted_bind fun _ => parted_inner rfl ?_
    exact (faultsAt_emitBlock site body _).bind_pure
  | .whileLoop test body orelse =>
    rw [Stmt.shell, Stmt.inner, Stmt.emit, Stmt.emit]
    refine parted_bind fun _ => parted_inner rfl ?_
    refine (faultsAt_emitBlock site body _).bind fun _ => ?_
    exact (faultsAt_emitBlock site orelse _).bind_pure
  | .attempt _ _ (_ :: _) _ =>
    rw [Stmt.shell, Stmt.emit, Stmt.emit]
    exact .inl ⟨.attemptElse, rfl, rfl⟩
  | .attempt body handlers [] cleanup =>
    rw [Stmt.shell, Stmt.inner, Stmt.emit, Stmt.emit]
    refine parted_inner rfl ?_
    refine (faultsAt_emitBlock site body _).bind fun _ => ?_
    refine (faultsAt_emitHandlers site handlers _).bind fun _ => ?_
    exact (faultsAt_emitBlock site cleanup _).bind_pure
  | .assign targets value =>
    refine parted_leaf rfl (by simp only [Stmt.inner]) ?_
    rw [Stmt.emit]
    exact (lineless_orRefuse _).bind fun _ =>
      failsOnly_emitAssignments _ _ (fun _ _ _ => lineless_orRefuse _) _
  | .declare target hint value =>
    refine parted_leaf rfl (by simp only [Stmt.inner]) ?_
    rw [Stmt.emit]
    exact failsOnly_emitDeclaration hint (lineless_orRefuse _) fun _ _ => lineless_orRefuse _
  | .update target op value =>
    refine parted_leaf rfl (by simp only [Stmt.inner]) ?_
    rw [Stmt.emit]
    exact failsOnly_emitUpdate (lineless_orRefuse _) rfl (lineless_orRefuse _)
  | .giveBack none | .pass | .leaveLoop | .nextRound | .globalNames _ =>
    refine parted_leaf rfl (by simp only [Stmt.inner]) ?_
    rw [Stmt.emit]
    exact failsOnly_pure _
  | .giveBack (some value) =>
    refine parted_leaf rfl (by simp only [Stmt.inner]) ?_
    rw [Stmt.emit]
    exact (lineless_orRefuse _).bind fun _ => failsOnly_pure _
  | .expr value =>
    refine parted_leaf rfl (by simp only [Stmt.inner]) ?_
    cases hd : isDocText value with
    | true =>
      match value, hd with
      | .constant (.str _), _ =>
        rw [Stmt.emit]
        exact failsOnly_pure _
    | false =>
      rw [Stmt.emit]
      · exact (lineless_orRefuse _).bind fun _ => failsOnly_pure _
      · rintro text rfl
        cases hd
  | .importNames names =>
    refine parted_leaf rfl (by simp only [Stmt.inner]) ?_
    rw [Stmt.emit]
    exact (lineless_orRefuse _).bind fun _ => failsOnly_pure _
  | .unsupported kind =>
    refine parted_leaf rfl (by simp only [Stmt.inner]) ?_
    rw [Stmt.emit]
    exact lineless_orRefuse (.error (.unknownStatement kind))
termination_by (sizeOf stmt, 0)
theorem faultsAt_emitBlock (site : Site) (b : Block) (scope : Scope) :
    FaultsAt site.style (blockStatements site.body b) (emitBlock site b scope) := by
  match b with
  | [] =>
    rw [blockStatements, emitBlock]
    exact faultsAt_pure _
  | ⟨line, stmt⟩ :: rest =>
    rw [blockStatements, emitBlock]
    refine ((Stmt.parted_emit site stmt scope).locate line).bind fun _ => ?_
    exact (faultsAt_emitBlock site rest _).bind_pure
termination_by (sizeOf b, 0)
theorem faultsAt_emitOtherwise (site : Site) (b : Block) (scope : Scope) :
    FaultsAt site.style (blockStatements site.body b) (emitOtherwise site b scope) := by
  cases he : isElif b with
  | true =>
    obtain ⟨n, test, body, orelse, hb⟩ := exists_of_isElif he
    have smaller : sizeOf body < sizeOf b ∧ sizeOf orelse < sizeOf b := by
      rw [hb]
      simp
      omega
    -- The test counts for the branch that it is the test of.
    have own : (Stmt.branch test body orelse).shell.emit site scope =
        orRefuse (test.renderCondition (site.view scope)) >>= fun text =>
          pure ⟨scope, [.flush ("if " ++ text), .flush "end"]⟩ := by
      rw [Stmt.shell, Stmt.emit]
      rfl
    rw [hb, blockStatements, blockStatements, List.append_nil, Stmt.inner, emitOtherwise]
    refine faultsAt_test ⟨site.body, n, .branch test body orelse⟩ own fun _ => ?_
    refine (faultsAt_emitBlock site body _).bind fun _ => ?_
    exact (faultsAt_emitOtherwise site orelse _).bind_pure
  | false =>
    by_cases hb : b = []
    · subst hb
      rw [blockStatements, emitOtherwise]
      exact faultsAt_pure _
    · rw [emitOtherwise_of_not_isElif he hb]
      exact (faultsAt_emitBlock site b scope).bind_pure
termination_by (sizeOf b, 1)
decreasing_by
  · exact .right _ Nat.zero_lt_one
  · exact .left _ _ smaller.1
  · exact .left _ _ smaller.2
theorem faultsAt_emitHandlers (site : Site) (handlers : List (Handler Block)) (scope : Scope) :
    FaultsAt site.style (handlerStatements site.body handlers)
      (emitHandlers site handlers scope) := by
  match handlers with
  | [] =>
    rw [handlerStatements, emitHandlers]
    exact faultsAt_pure _
  | ⟨caught, name, body⟩ :: rest =>
    rw [handlerStatements, emitHandlers]
    refine (faultsAt_emitBlock site body _).bind fun _ => ?_
    exact (faultsAt_emitHandlers site rest _).bind_pure
termination_by (sizeOf handlers, 0)
end

end Berrify
