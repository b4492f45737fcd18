import Berrify.Proofs.Stmt.Emission

/-!
# What a script does to the scope

The scope at a point of a script is the result of the operations that the statements before it ask
for. `Stmt.operations` lists them in the order of the source, and the list depends on the text of
the script and on the name tables only : the scope mode decides what an operation does
(`Scope.perform`), not which operations there are. So two runs over one script can be compared
operation by operation, and an operation is the same occurrence of a name in both.

An operation also says which lines about names it writes (`Scope.marks`). Every part of a script
that was emitted performed its operations, and the lines about names in its outline are those that
they write (`Emits.performs`).
-/

namespace Berrify

/-- What statements do to the scope. -/
inductive Operation where
  | push (kind : FrameKind)
  | pop
  | define (name : String)
  /-- A parameter that is written. -/
  | parameter (name : String) (kind : Container)
  /-- The variable of a loop, or the name that a handler gives to what it caught. -/
  | introduce (name : String)
  /-- The names of a `global` line. -/
  | share (names : List String)
  /-- An assignment of a value of a certain kind. -/
  | assign (target : Expr) (kind : Container)
  /-- A declaration without a value. -/
  | annotate (target : Expr) (kind : Container)

/-- Whether an operation opens or closes a body. -/
def Operation.isFraming : Operation → Bool
  | push _ => true
  | pop => true
  | _ => false

namespace Scope

/-- A declaration without a value : a name that is declared already stays as it is. -/
def annotate (s : Scope) (target : Expr) (kind : Container) : Scope :=
  match target with
  | .name id => if s.declaresHere id then s else s.declare id kind
  | _ => (s.assign target kind).1

/-- The scope behind an operation. -/
def perform (s : Scope) : Operation → Scope
  | .push kind => s.push kind
  | .pop => s.pop
  | .define name => s.define name
  | .parameter name kind => s.declare name kind
  | .introduce name => s.declare name .unknown
  | .share names => declareGlobals names s
  | .assign target kind => (s.assign target kind).1
  | .annotate target kind => s.annotate target kind

/-- The scope behind a list of operations. -/
def performAll (s : Scope) (ops : List Operation) : Scope :=
  ops.foldl perform s

@[simp] theorem performAll_nil (s : Scope) : s.performAll [] = s := rfl

@[simp] theorem performAll_cons (s : Scope) (op : Operation) (ops : List Operation) :
    s.performAll (op :: ops) = (s.perform op).performAll ops := rfl

@[simp] theorem performAll_append (s : Scope) (ops others : List Operation) :
    s.performAll (ops ++ others) = (s.performAll ops).performAll others :=
  List.foldl_append

end Scope

/-- The lines about names that an operation writes, by their roles. -/
def Operation.marks (s : Scope) : Operation → List Role
  | .introduce name => [.introduces [name]]
  | .share names => [.introduces names]
  | .assign target kind => [assignmentRole (s.assign target kind).2 target]
  | .annotate (.name id) _ => if s.declaresHere id then [] else [.declares id]
  | _ => []

/-- The lines about names that a list of operations writes. -/
def Scope.marks (s : Scope) : List Operation → List Role
  | [] => []
  | op :: ops => op.marks s ++ (s.perform op).marks ops

theorem Scope.marks_append (s : Scope) (ops others : List Operation) :
    s.marks (ops ++ others) = s.marks ops ++ (s.performAll ops).marks others := by
  induction ops generalizing s with
  | nil => rfl
  | cons op ops ih => simp [marks, ih]

/-! ## The operations of a script -/

/-- The operation of a loop on its variable. -/
def loopOperations : Expr → List Operation
  | .name id => [.introduce id]
  | _ => []

/-- The operations of a handler on the name it gives. -/
def handlerOperations : Option String → List Operation
  | some name => [.introduce name]
  | none => []

/-- The operations of parameters that are written. -/
def paramOperations (naming : Naming) (params : List Param) : List Operation :=
  params.map fun param => .parameter param.name (param.container naming)

mutual
/-- The operations of a statement, which stands directly in a class body or not. -/
def Stmt.operations (naming : Naming) (inClass : Bool) : Stmt → List Operation
  | .classDef _ _ body => .push .classBody :: (blockOperations naming true body ++ [.pop])
  | .functionDef name params decorators body =>
    .define name :: .push .functionBody ::
      (paramOperations naming (ownParams (inClass && !isDecoratedStatic decorators) params) ++
        blockOperations naming false body ++ [.pop])
  | .assign targets value => targets.map (.assign · (.ofValue naming value))
  | .declare target hint none => [.annotate target (.ofHint naming hint)]
  | .declare target hint (some value) => [.assign target (declaredKind naming hint value)]
  | .branch _ body orelse =>
    blockOperations naming inClass body ++ blockOperations naming inClass orelse
  | .forEach target _ body orelse =>
    loopOperations target ++ blockOperations naming inClass body ++
      blockOperations naming inClass orelse
  | .whileLoop _ body orelse =>
    blockOperations naming inClass body ++ blockOperations naming inClass orelse
  | .attempt body handlers orelse cleanup =>
    blockOperations naming inClass body ++ handlersOperations naming inClass handlers ++
      blockOperations naming inClass orelse ++ blockOperations naming inClass cleanup
  | .globalNames names => [.share names]
  | .update .. => []
  | .giveBack _ => []
  | .expr _ => []
  | .pass => []
  | .leaveLoop => []
  | .nextRound => []
  | .importNames _ => []
  | .unsupported _ => []
/-- The operations of the statements of a block. -/
def blockOperations (naming : Naming) (inClass : Bool) : List (Located Stmt) → List Operation
  | [] => []
  | ⟨_, stmt⟩ :: rest => stmt.operations naming inClass ++ blockOperations naming inClass rest
/-- The operations of handlers. -/
def handlersOperations (naming : Naming) (inClass : Bool) :
    List (Handler (List (Located Stmt))) → List Operation
  | [] => []
  | ⟨_, name, body⟩ :: rest =>
    handlerOperations name ++ blockOperations naming inClass body ++
      handlersOperations naming inClass rest
end

/-- The operations of a part of a script. -/
def Phrase.operations (naming : Naming) (inClass : Bool) : Phrase → List Operation
  | .stmt s => s.operations naming inClass
  | .block b => blockOperations naming inClass b
  | .otherwise b => blockOperations naming inClass b
  | .clause _ b => blockOperations naming inClass b
  | .handlers hs => handlersOperations naming inClass hs
  | .targets _ kind ts => ts.map (.assign · kind)

/-! ## Lines about names -/

/-- A line about names, or nothing. -/
def Role.mark : Role → List Role
  | .other => []
  | role => [role]

namespace Outline

/-- The lines about names, in order, those of the bodies inside included. -/
def marks : Outline → List Role
  | nil => []
  | line _ role rest => role.mark ++ rest.marks
  | block inner rest => inner.marks ++ rest.marks
  | body _ inner rest => inner.marks ++ rest.marks

@[simp] theorem marks_append (o p : Outline) : (o ++ p).marks = o.marks ++ p.marks := by
  change (o.append p).marks = _
  induction o with
  | nil => rfl
  | line text role rest ih => simp [append, marks, ih]
  | block inner rest _ ih => simp [append, marks, ih]
  | body params inner rest _ ih => simp [append, marks, ih]

@[simp] theorem marks_flat (texts : List String) : (flat texts).marks = [] := by
  induction texts with
  | nil => rfl
  | cons text texts ih => exact ih

@[simp] theorem marks_guards (texts : List (String × String)) : (guards texts).marks = [] := by
  induction texts with
  | nil => rfl
  | cons text texts ih => exact ih

end Outline

theorem mark_assignmentRole (form : AssignmentForm) (target : Expr) :
    (assignmentRole form target).mark = [assignmentRole form target] := by
  cases form <;> cases target <;> rfl

/-! ## Every part of a script -/

/-- Operations lead from one scope to another, and the lines about names of an outline are those
that they write on the way. -/
structure Performs (ops : List Operation) (s s' : Scope) (o : Outline) : Prop where
  scope : s.performAll ops = s'
  marks : o.marks = s.marks ops

namespace Performs

variable {ops others : List Operation} {s t u : Scope} {o p : Outline}

theorem nil (s : Scope) : Performs [] s s .nil :=
  ⟨rfl, rfl⟩

/-- A line that is about no name. -/
theorem other {text : String} (h : Performs ops s t o) : Performs ops s t (.line text .other o) :=
  ⟨h.scope, h.marks⟩

/-- The line that an operation writes. -/
theorem line {op : Operation} {text : String} {role : Role} (hrole : op.marks s = role.mark)
    (h : Performs ops (s.perform op) t o) : Performs (op :: ops) s t (.line text role o) :=
  ⟨h.scope, by rw [Outline.marks, h.marks, Scope.marks, hrole]⟩

/-- An operation that writes no line. -/
theorem silent {op : Operation} (hmarks : op.marks s = []) (h : Performs ops (s.perform op) t o) :
    Performs (op :: ops) s t o :=
  ⟨h.scope, by rw [h.marks, Scope.marks, hmarks, List.nil_append]⟩

theorem append (h : Performs ops s t o) (h' : Performs others t u p) :
    Performs (ops ++ others) s u (o ++ p) := by
  refine ⟨?_, ?_⟩
  · rw [Scope.performAll_append, h.scope, h'.scope]
  · rw [Outline.marks_append, h.marks, h'.marks, Scope.marks_append, h.scope]

theorem block (h : Performs ops s t o) (h' : Performs others t u p) :
    Performs (ops ++ others) s u (.block o p) := by
  have both := h.append h'
  exact ⟨both.scope, by rw [Outline.marks, ← both.marks, Outline.marks_append]⟩

theorem closing (s : Scope) : Performs [] s s .closing :=
  (nil s).other

/-- The line that closes a block is about no name. -/
theorem closed (h : Performs ops s t o) : Performs ops s t (o ++ .closing) := by
  have both := h.append (closing t)
  rwa [List.append_nil] at both

/-- What is written before a body, and the line that closes it, are about no name. -/
theorem body (params : List String) {lead : Outline} (hlead : lead.marks = [])
    (h : Performs ops s t o) :
    Performs (ops ++ [.pop]) s t.pop (.body params (lead ++ o) .closing) := by
  refine ⟨?_, ?_⟩
  · rw [Scope.performAll_append, h.scope]
    rfl
  · rw [Outline.marks, Outline.marks_append, hlead, List.nil_append, h.marks, Scope.marks_append]
    rfl

end Performs

theorem performAll_paramOperations (naming : Naming) (params : List Param) (s : Scope) :
    s.performAll (paramOperations naming params) = declareParams naming params s := by
  unfold paramOperations declareParams Scope.performAll
  rw [List.foldl_map]
  rfl

theorem marks_paramOperations (naming : Naming) (params : List Param) (s : Scope) :
    s.marks (paramOperations naming params) = [] := by
  unfold paramOperations
  induction params generalizing s with
  | nil => rfl
  | cons param params ih => exact ih _

/-- Every part of a script performs its operations and writes their lines. -/
theorem Emits.performs {site : Site} {phrase : Phrase} {s s' : Scope} {o : Outline}
    (h : Emits site phrase s s' o) :
    Performs (phrase.operations site.style.naming (site.body == .classBody)) s s' o := by
  induction h with
  | @classDef site name bases body s s' header o _ _ ih =>
    exact .other (.silent rfl (ih.body [] (Outline.marks_flat (memberTexts site.style body))))
  | @functionDef site name params decorators body s s' isStatic texts o hs _ _ _ ih =>
    obtain ⟨rfl, -⟩ := staticDecorators_of_ok hs
    have declared : Performs (paramOperations site.style.naming
          (writtenParams site (isDecoratedStatic decorators) params))
        ((s.define name).push .functionBody)
        (functionScope site s name (writtenParams site (isDecoratedStatic decorators) params))
        .nil :=
      ⟨performAll_paramOperations _ _ _, (marks_paramOperations _ _ _).symm⟩
    have inner := declared.append ih
    exact .other (.silent rfl (.silent rfl (inner.body _ (Outline.marks_guards texts))))
  | assign _ _ ih => exact ih
  | declareValue _ _ => exact .line (mark_assignmentRole _ _).symm (.nil _)
  | @declareFirst site id hint s hd =>
    have behind : s.perform (.annotate (.name id) (.ofHint site.style.naming hint)) =
        s.declare id (.ofHint site.style.naming hint) := by
      simp [Scope.perform, Scope.annotate, hd]
    refine .line (by simp [Operation.marks, hd, Role.mark]) ?_
    rw [behind]
    exact .nil _
  | @declareAgain site id hint s hd =>
    have behind : s.perform (.annotate (.name id) (.ofHint site.style.naming hint)) = s := by
      simp [Scope.perform, Scope.annotate, hd]
    refine .silent (by simp [Operation.marks, hd]) ?_
    rw [behind]
    exact .nil s
  | @declareField site target hint s text hb _ =>
    have behind : s.perform (.annotate target (.ofHint site.style.naming hint)) =
        (s.assign target (.ofHint site.style.naming hint)).1 := by
      cases target <;> first | rfl | cases hb
    refine .silent (by cases target <;> first | rfl | cases hb) ?_
    rw [behind]
    exact .nil _
  | update _ _ _ => exact .other (.nil _)
  | branch _ _ _ ih₁ ih₂ => exact .other (ih₁.block ih₂.closed)
  | @forEach site target iter body orelse s s' key header o hh _ ih =>
    obtain ⟨rfl, rfl, -⟩ := loopHeader_eq_ok.1 hh
    have inner : Performs (blockOperations site.style.naming (site.body == .classBody) body ++ [])
        (s.perform (.introduce key)) s' (.block o .closing) := ih.block (.closing _)
    have looped : Performs _ s s' (.line header (.introduces [key]) (.block o .closing)) :=
      .line rfl inner
    simpa [Phrase.operations, Stmt.operations, loopOperations, blockOperations] using looped
  | whileLoop _ _ _ ih₁ ih₂ => exact .other (ih₁.block ih₂.closed)
  | attempt _ _ _ ih₁ ih₂ ih₃ =>
    have inner := ih₁.block (ih₂.append ih₃).closed
    simpa [Phrase.operations, Stmt.operations, blockOperations, List.append_assoc]
      using Performs.other inner
  | leave => exact .other (.nil _)
  | giveBack _ => exact .other (.nil _)
  | docText => exact .nil _
  | expr _ _ => exact .other (.nil _)
  | pass => exact .nil _
  | leaveLoop => exact .other (.nil _)
  | nextRound => exact .other (.nil _)
  | importNames _ => exact ⟨rfl, Outline.marks_flat _⟩
  | globalNames => exact .line rfl (.nil _)
  | blockNil => exact .nil _
  | blockCons _ _ ih₁ ih₂ => exact ih₁.append ih₂
  | otherwiseElif _ _ _ ih₁ ih₂ =>
    simpa [Phrase.operations, Stmt.operations, blockOperations] using (ih₁.block ih₂).other
  | otherwiseElse _ _ ih => exact ih
  | clauseNil => exact .nil _
  | clauseCons _ _ ih =>
    have inner := ih.block (.nil _)
    rw [List.append_nil] at inner
    exact .other inner
  | handlersNil => exact .nil _
  | handlersBare _ _ ih₁ ih₂ => exact .other (ih₁.block ih₂)
  | handlersNamed _ _ ih₁ ih₂ => exact .line rfl (ih₁.block ih₂)
  | targetsNil => exact .nil _
  | targetsCons _ _ ih => exact .line (mark_assignmentRole _ _).symm ih

theorem Stmt.emit_scope {site : Site} {stmt : Stmt} {s : Scope} {r : Emitted}
    (h : stmt.emit site s = .ok r) :
    r.scope = s.performAll (stmt.operations site.style.naming (site.body == .classBody)) := by
  obtain ⟨o, ho, -⟩ := stmt.follows site h
  exact ho.performs.scope.symm

theorem emitBlock_scope {site : Site} {block : Block} {s : Scope} {r : Emitted}
    (h : emitBlock site block s = .ok r) :
    r.scope = s.performAll (blockOperations site.style.naming (site.body == .classBody) block) := by
  obtain ⟨o, ho, -⟩ := emitBlock_follows site block h
  exact ho.performs.scope.symm

end Berrify
