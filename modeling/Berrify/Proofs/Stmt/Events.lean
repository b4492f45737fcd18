import Berrify.Proofs.Stmt.Copies
import Mathlib.Data.List.DropRight

/-!
# What a script writes, and where in the scope

Emitting a script writes expressions, and in between it changes the scope. `Stmt.events` lists both
in the order of the text : an `Event.write` is an expression that is written in the scope that the
operations before it lead to. The operations among the events are those of `Stmt.operations`
(`operations_blockEvents`). Type hints, caught classes and decorators are not written, and of a loop
only the map is whose keys it goes through.

A text `Yields` events if it holds their expressions one behind another, each as it is written in
the scope there. `Emits.yields` says that the lines of every part of a script yield its events, by
induction over the rules, and `emitScript_yields` is the result for the text of a script.
-/

namespace Berrify

/-- What happens when a script is emitted. -/
inductive Event where
  /-- An expression is written as of some operations ago. Only the value of an assignment to several
  targets is written later than it is read. -/
  | write (e : Expr) (back : Nat)
  | perform (op : Operation)

/-- The operation of an event. -/
def Event.operation? : Event → Option Operation
  | write .. => none
  | perform op => some op

/-- Expressions that are written one behind another in the scope there. -/
def writes (es : List Expr) : List Event :=
  es.map (.write · 0)

/-- The operations among events. -/
def operationsOf (events : List Event) : List Operation :=
  events.filterMap Event.operation?

@[simp] theorem operationsOf_nil : operationsOf [] = [] := rfl

@[simp] theorem operationsOf_write (e : Expr) (back : Nat) (events : List Event) :
    operationsOf (.write e back :: events) = operationsOf events := rfl

@[simp] theorem operationsOf_perform (op : Operation) (events : List Event) :
    operationsOf (.perform op :: events) = op :: operationsOf events := rfl

@[simp] theorem operationsOf_append (events others : List Event) :
    operationsOf (events ++ others) = operationsOf events ++ operationsOf others :=
  List.filterMap_append

@[simp] theorem operationsOf_writes (es : List Expr) : operationsOf (writes es) = [] := by
  induction es with
  | nil => rfl
  | cons e es ih => exact ih

@[simp] theorem operationsOf_map_perform (ops : List Operation) :
    operationsOf (ops.map .perform) = ops := by
  induction ops with
  | nil => rfl
  | cons op ops ih => rw [List.map_cons, operationsOf_perform, ih]

/-! ## The events of a script -/

/-- The target of an assignment. What a subscript assigns to is written for itself. -/
def targetEvents : Expr → List Event
  | .subscript value index => writes [value, index]
  | target => writes [target]

/-- The assignments of a value to targets, some of which have been assigned to already. -/
def targetsEvents (value : Expr) (kind : Container) : Nat → List Expr → List Event
  | _, [] => []
  | back, target :: rest =>
    targetEvents target ++ .write value back :: .perform (.assign target kind) ::
      targetsEvents value kind (back + 1) rest

/-- The map whose keys a loop goes through. -/
def loopEvents (iter : Expr) : List Event :=
  match loopReceiver iter with
  | .ok receiver => writes [receiver]
  | .error _ => []

mutual
/-- The events of a statement, which stands directly in a class body or not. The defaults of a
function are written inside of its body. -/
def Stmt.events (naming : Naming) (inClass : Bool) : Stmt → List Event
  | .classDef _ bases body =>
    writes (properBases bases) ++
      .perform (.push .classBody) :: (blockEvents naming true body ++ [.perform .pop])
  | .functionDef name params decorators body =>
    let own := ownParams (inClass && !isDecoratedStatic decorators) params
    .perform (.define name) :: .perform (.push .functionBody) ::
      ((paramOperations naming own).map .perform ++ writes ((defaults own).map (·.2)) ++
        blockEvents naming false body ++ [.perform .pop])
  | .assign targets value => targetsEvents value (.ofValue naming value) 0 targets
  | .declare target hint none => [.perform (.annotate target (.ofHint naming hint))]
  | .declare target hint (some value) =>
    targetsEvents value (declaredKind naming hint value) 0 [target]
  | .update target _ value => targetEvents target ++ writes [value]
  | .branch test body orelse =>
    writes [test] ++ (blockEvents naming inClass body ++ blockEvents naming inClass orelse)
  | .forEach target iter body orelse =>
    loopEvents iter ++ (loopOperations target).map .perform ++ blockEvents naming inClass body ++
      blockEvents naming inClass orelse
  | .whileLoop test body orelse =>
    writes [test] ++ (blockEvents naming inClass body ++ blockEvents naming inClass orelse)
  | .attempt body handlers orelse cleanup =>
    blockEvents naming inClass body ++ handlersEvents naming inClass handlers ++
      blockEvents naming inClass orelse ++ blockEvents naming inClass cleanup
  | .giveBack value => writes value.toList
  | .expr value => if isDocText value then [] else writes [value]
  | .globalNames names => [.perform (.share names)]
  | .pass => []
  | .leaveLoop => []
  | .nextRound => []
  | .importNames _ => []
  | .unsupported _ => []
/-- The events of the statements of a block. -/
def blockEvents (naming : Naming) (inClass : Bool) : List (Located Stmt) → List Event
  | [] => []
  | ⟨_, stmt⟩ :: rest => stmt.events naming inClass ++ blockEvents naming inClass rest
/-- The events of handlers. -/
def handlersEvents (naming : Naming) (inClass : Bool) :
    List (Handler (List (Located Stmt))) → List Event
  | [] => []
  | ⟨_, name, body⟩ :: rest =>
    (handlerOperations name).map .perform ++ blockEvents naming inClass body ++
      handlersEvents naming inClass rest
end

/-- The events of a part of a script. The targets of an assignment are written together with the
value, which is no part of them. -/
def Phrase.events (naming : Naming) (inClass : Bool) : Phrase → List Event
  | .stmt s => s.events naming inClass
  | .block b => blockEvents naming inClass b
  | .otherwise b => blockEvents naming inClass b
  | .clause _ b => blockEvents naming inClass b
  | .handlers hs => handlersEvents naming inClass hs
  | .targets _ kind ts => (ts.map (.assign · kind)).map .perform

@[simp] theorem operationsOf_targetEvents (target : Expr) :
    operationsOf (targetEvents target) = [] := by
  cases target <;> rfl

@[simp] theorem operationsOf_targetsEvents (value : Expr) (kind : Container) (back : Nat)
    (targets : List Expr) :
    operationsOf (targetsEvents value kind back targets) = targets.map (.assign · kind) := by
  induction targets generalizing back with
  | nil => rfl
  | cons target rest ih => simp [targetsEvents, ih]

@[simp] theorem operationsOf_loopEvents (iter : Expr) : operationsOf (loopEvents iter) = [] := by
  unfold loopEvents
  split <;> rfl

mutual
theorem Stmt.operations_events (naming : Naming) (inClass : Bool) (stmt : Stmt) :
    operationsOf (stmt.events naming inClass) = stmt.operations naming inClass := by
  match stmt with
  | .classDef name bases body =>
    simp [Stmt.events, Stmt.operations, operations_blockEvents naming true body]
  | .functionDef name params decorators body =>
    simp [Stmt.events, Stmt.operations, operations_blockEvents naming false body]
  | .assign targets value => simp [Stmt.events, Stmt.operations]
  | .declare target hint none => rfl
  | .declare target hint (some value) => simp [Stmt.events, Stmt.operations]
  | .update target op value => simp [Stmt.events, Stmt.operations]
  | .branch test body orelse =>
    simp [Stmt.events, Stmt.operations, operations_blockEvents naming inClass body,
      operations_blockEvents naming inClass orelse]
  | .forEach target iter body orelse =>
    simp [Stmt.events, Stmt.operations, operations_blockEvents naming inClass body,
      operations_blockEvents naming inClass orelse]
  | .whileLoop test body orelse =>
    simp [Stmt.events, Stmt.operations, operations_blockEvents naming inClass body,
      operations_blockEvents naming inClass orelse]
  | .attempt body handlers orelse cleanup =>
    simp [Stmt.events, Stmt.operations, operations_blockEvents naming inClass body,
      operations_handlersEvents naming inClass handlers,
      operations_blockEvents naming inClass orelse, operations_blockEvents naming inClass cleanup]
  | .giveBack value => simp [Stmt.events, Stmt.operations]
  | .expr value =>
    rw [Stmt.events, Stmt.operations]
    split <;> rfl
  | .globalNames _ | .pass | .leaveLoop | .nextRound | .importNames _ | .unsupported _ => rfl
/-- The operations among the events of a block are those of the block. -/
theorem operations_blockEvents (naming : Naming) (inClass : Bool) (b : List (Located Stmt)) :
    operationsOf (blockEvents naming inClass b) = blockOperations naming inClass b := by
  match b with
  | [] => rfl
  | ⟨_, stmt⟩ :: rest =>
    simp [blockEvents, blockOperations, stmt.operations_events naming inClass,
      operations_blockEvents naming inClass rest]
theorem operations_handlersEvents (naming : Naming) (inClass : Bool)
    (handlers : List (Handler (List (Located Stmt)))) :
    operationsOf (handlersEvents naming inClass handlers) =
      handlersOperations naming inClass handlers := by
  match handlers with
  | [] => rfl
  | ⟨_, name, body⟩ :: rest =>
    simp [handlersEvents, handlersOperations, operations_blockEvents naming inClass body,
      operations_handlersEvents naming inClass rest]
end

theorem Phrase.operations_events (naming : Naming) (inClass : Bool) (phrase : Phrase) :
    operationsOf (phrase.events naming inClass) = phrase.operations naming inClass := by
  cases phrase with
  | stmt stmt => exact stmt.operations_events naming inClass
  | block b => exact operations_blockEvents naming inClass b
  | «otherwise» b => exact operations_blockEvents naming inClass b
  | clause keyword b => exact operations_blockEvents naming inClass b
  | handlers hs => exact operations_handlersEvents naming inClass hs
  | targets value kind ts => exact operationsOf_map_perform _

/-! ## The text of events -/

/-- A text holds the expressions of events one behind another, each as it is written behind the
operations that are done there. -/
inductive Yields (naming : Naming) (start : Scope) :
    List Operation → List Event → String → Prop where
  | nil {done : List Operation} (text : String) : Yields naming start done [] text
  | write {done : List Operation} {e : Expr} {back : Nat} {rest : List Event} {pos : Position}
      (front : String) {written behind : String} :
      e.write ⟨naming, start.performAll (done.rdrop back)⟩ pos = .ok written →
      Yields naming start done rest behind →
      Yields naming start done (.write e back :: rest) (front ++ written ++ behind)
  | perform {done : List Operation} {op : Operation} {rest : List Event} {text : String} :
      Yields naming start (done ++ [op]) rest text →
      Yields naming start done (.perform op :: rest) text

namespace Yields

variable {naming : Naming} {start : Scope} {done : List Operation} {events others : List Event}
  {text next : String} {e : Expr} {level : Nat} {o p : Outline}

/-- Before the first expression there may be any text. -/
theorem behind (h : Yields naming start done events text) (front : String) :
    Yields naming start done events (front ++ text) := by
  induction h with
  | nil text => exact .nil _
  | write middle hw hrest _ =>
    rw [← String.append_assoc, ← String.append_assoc]
    exact .write _ hw hrest
  | perform _ ih => exact .perform ih

theorem append (h : Yields naming start done events text)
    (h' : Yields naming start (done ++ operationsOf events) others next) :
    Yields naming start done (events ++ others) (text ++ next) := by
  induction h with
  | nil text =>
    rw [operationsOf_nil, List.append_nil] at h'
    exact h'.behind text
  | write front hw _ ih =>
    rw [String.append_assoc]
    exact .write front hw (ih h')
  | perform _ ih =>
    rw [operationsOf_perform, List.append_cons] at h'
    exact .perform (ih h')

/-- Behind the last expression there may be any text. -/
theorem before (h : Yields naming start done events text) (behind : String) :
    Yields naming start done events (text ++ behind) := by
  simpa using h.append (.nil behind)

/-- One expression. -/
theorem one {pos : Position} {back : Nat}
    (h : e.write ⟨naming, start.performAll (done.rdrop back)⟩ pos = .ok text) :
    Yields naming start done [.write e back] text := by
  simpa using Yields.write "" h (.nil "")

/-- An expression that stands alone. -/
theorem whole (h : e.render ⟨naming, start.performAll done⟩ = .ok text) :
    Yields naming start done (writes [e]) text :=
  one (by rwa [List.rdrop_zero])

/-- The operations of events come before the events behind them. -/
theorem map_perform (ops : List Operation)
    (h : Yields naming start (done ++ ops) events text) :
    Yields naming start done (ops.map .perform ++ events) text := by
  induction ops generalizing done with
  | nil => simpa using h
  | cons op ops ih => exact .perform (ih (by simpa using h))

theorem line (h : Yields naming start done events text) (level : Nat) :
    Yields naming start done events ((Line.mk level text).render ++ "\n") :=
  (h.behind _).before "\n"

/-- Behind events without operations the scope is the same. -/
theorem followed (h : Yields naming start done events text) (hops : operationsOf events = [])
    (h' : Yields naming start done others next) :
    Yields naming start done (events ++ others) (text ++ next) :=
  h.append (by rwa [hops, List.append_nil])

/-- A line in front of an outline. -/
theorem lineThen (h : Yields naming start done events text) (hops : operationsOf events = [])
    (role : Role) (h' : Yields naming start done others (o.textAt level)) :
    Yields naming start done (events ++ others) ((Outline.line text role o).textAt level) :=
  (h.line level).followed hops h'

theorem only (h : Yields naming start done events text) (role : Role) :
    Yields naming start done events ((Outline.only text role).textAt level) :=
  (h.line level).before _

/-- A line without expressions. -/
theorem header (header : String) (role : Role)
    (h : Yields naming start done events (o.textAt level)) :
    Yields naming start done events ((Outline.line header role o).textAt level) :=
  h.behind _

theorem block (h : Yields naming start done events (o.textAt (level + 1)))
    (h' : Yields naming start (done ++ operationsOf events) others (p.textAt level)) :
    Yields naming start done (events ++ others) ((Outline.block o p).textAt level) :=
  h.append h'

theorem appendOutline (h : Yields naming start done events (o.textAt level))
    (h' : Yields naming start (done ++ operationsOf events) others (p.textAt level)) :
    Yields naming start done (events ++ others) ((o ++ p).textAt level) := by
  rw [Outline.textAt_append]
  exact h.append h'

/-- The closing line behind an outline. -/
theorem closed (h : Yields naming start done events (o.textAt level)) :
    Yields naming start done events ((o ++ Outline.closing).textAt level) := by
  rw [Outline.textAt_append]
  exact h.before _

/-- A body up to its closing line. -/
theorem body (params : List String) (h : Yields naming start done events (o.textAt (level + 1))) :
    Yields naming start done (events ++ [.perform .pop])
      ((Outline.body params o .closing).textAt level) :=
  h.append (.perform (.nil _))

/-- What events yield is split where they are. -/
theorem split (h : Yields naming start done (events ++ others) text) :
    ∃ front behind, front ++ behind = text ∧ Yields naming start done events front ∧
      Yields naming start (done ++ operationsOf events) others behind := by
  induction events generalizing done text with
  | nil => exact ⟨"", text, String.empty_append, .nil _, by simpa using h⟩
  | cons event events ih =>
    cases h with
    | write front hw hrest =>
      obtain ⟨middle, behind, rfl, hmiddle, hbehind⟩ := ih hrest
      exact ⟨_, behind, String.append_assoc, .write front hw hmiddle, hbehind⟩
    | perform hrest =>
      obtain ⟨front, behind, rfl, hfront, hbehind⟩ := ih hrest
      exact ⟨front, behind, rfl, .perform hfront, by simpa using hbehind⟩

end Yields

/-! ## What the parts of a script yield -/

section

variable {naming : Naming} {start : Scope} {done : List Operation} {text given : String}

theorem yields_condition {test : Expr}
    (h : test.renderCondition ⟨naming, start.performAll done⟩ = .ok text) :
    Yields naming start done (writes [test]) text := by
  obtain ⟨alone, ha, rfl⟩ := map_eq_ok.1 h
  split
  · exact ((Yields.whole ha).behind "(").before ")"
  · exact .whole ha

theorem yields_target {target : Expr}
    (h : renderTarget ⟨naming, start.performAll done⟩ target = .ok text) :
    Yields naming start done (targetEvents target) text := by
  match target, h with
  | .name id, h => exact .whole h
  | .attribute value attr, h => exact .whole h
  | .subscript value index, h =>
    obtain ⟨b, hb, a, ha, rfl⟩ := renderTarget_subscript_eq_ok.1 h
    have index : Yields naming start done [.write index 0] b := .one (by rwa [List.rdrop_zero])
    exact (((Yields.whole ha).before "[").followed rfl index).before "]"
  | .constant _, h | .call .., h | .binary .., h | .unary .., h | .boolean .., h | .compare .., h
  | .conditional .., h | .dict _, h | .list _, h | .tuple _, h | .set _, h | .slice .., h
  | .lambda .., h | .template _, h | .starred _, h | .unsupported _, h =>
    simp [renderTarget, throw_eq_ok] at h

/-- An assignment writes its target and its value. -/
theorem yields_assignment {target value : Expr} {back : Nat}
    (ht : renderTarget ⟨naming, start.performAll done⟩ target = .ok text)
    (hv : value.render ⟨naming, start.performAll (done.rdrop back)⟩ = .ok given)
    (form : AssignmentForm) :
    Yields naming start done (targetEvents target ++ [.write value back])
      (assignmentLine form text given) := by
  have written := ((yields_target ht).before " = ").followed (operationsOf_targetEvents target)
    (.one hv)
  cases form with
  | declare =>
    have joined : assignmentLine .declare text given = "var " ++ (text ++ " = " ++ given) := by
      simp [assignmentLine, String.append_assoc]
    exact joined ▸ written.behind "var "
  | assign => exact written

/-- The value of an assignment is written for each target as it was before the first one. -/
theorem yields_targets {site : Site} {value : Expr} {kind : Container} {targets : List Expr}
    {s s' : Scope} {o : Outline} (h : Emits site (.targets given kind targets) s s' o)
    (level : Nat) {back : Nat} (hs : start.performAll done = s)
    (hv : value.render ⟨site.style.naming, start.performAll (done.rdrop back)⟩ = .ok given) :
    Yields site.style.naming start done (targetsEvents value kind back targets)
      (o.textAt level) := by
  induction targets generalizing done back s o with
  | nil => exact .nil _
  | cons target rest ih =>
    subst hs
    cases h with
    | targetsCons ht hrest =>
      let assigned := done ++ [.assign target kind]
      have next : start.performAll assigned = ((start.performAll done).assign target kind).1 := by
        rw [Scope.performAll_append]
        rfl
      have given : value.render
          ⟨site.style.naming, start.performAll (assigned.rdrop (back + 1))⟩ = .ok given := by
        rwa [List.rdrop_concat_succ]
      have later := Yields.perform (ih hrest next given)
      simpa [targetsEvents] using (yields_assignment ht hv _).lineThen (by simp) _ later

theorem yields_loop {target iter : Expr} {orelse : Block} {key header : String}
    (h : loopHeader ⟨naming, start.performAll done⟩ target iter orelse = .ok (key, header)) :
    Yields naming start done (loopEvents iter) header := by
  obtain ⟨-, -, receiver, keywords, rfl, text, ht, rfl⟩ := loopHeader_eq_ok.1 h
  exact ((Yields.whole ht).behind _).before ".keys()"

theorem yields_bases {bases : List Expr} {texts : List String}
    (h : List.Forall₂ (fun base text => base.render ⟨naming, start.performAll done⟩ = .ok text)
      bases texts) :
    Yields naming start done (writes bases) (String.join (texts.map (" : " ++ ·))) := by
  induction h with
  | nil => exact .nil _
  | cons hbase _ ih =>
    rw [List.map_cons, String.join_cons]
    exact ((Yields.whole hbase).behind " : ").followed rfl ih

theorem yields_guards {params : List (String × Expr)} {texts : List (String × String)}
    (h : List.Forall₂ (fun param text => param.1 = text.1 ∧
      param.2.render ⟨naming, start.performAll done⟩ = .ok text.2) params texts) (level : Nat) :
    Yields naming start done (writes (params.map (·.2))) ((Outline.guards texts).textAt level) := by
  induction h with
  | nil => exact .nil _
  | @cons param text params texts hparam _ ih =>
    have assignment := (Yields.whole hparam.2).behind (text.1 ++ " = ")
    exact .header _ _ ((assignment.only .other).followed rfl (ih.header "end" .other))

end

/-! ## Every part of a script yields its events -/

/-- Every part of a script that was emitted yields its events. -/
theorem Emits.yields {site : Site} {phrase : Phrase} {s s' : Scope} {o : Outline}
    (h : Emits site phrase s s' o) (level : Nat) {start : Scope} {done : List Operation}
    (hs : start.performAll done = s) :
    Yields site.style.naming start done
      (phrase.events site.style.naming (site.body == .classBody)) (o.textAt level) := by
  have behind {site : Site} {phrase : Phrase} {s s' : Scope} {o : Outline} {done : List Operation}
      (h : Emits site phrase s s' o) (hs : start.performAll done = s) :
      start.performAll (done ++ operationsOf
        (phrase.events site.style.naming (site.body == .classBody))) = s' := by
    rw [Scope.performAll_append, hs, phrase.operations_events]
    exact h.performs.scope
  have next {done : List Operation} {s : Scope} (hs : start.performAll done = s)
      (op : Operation) : start.performAll (done ++ [op]) = s.perform op := by
    rw [Scope.performAll_append, hs]
    rfl
  induction h generalizing level done with
  | @classDef site name bases body s s' header o hh hbody ih =>
    obtain ⟨texts, ht, rfl⟩ := classHeader_eq_ok hh
    have inner : Yields site.style.naming start (done ++ [.push .classBody])
        (blockEvents site.style.naming true body)
        ((Outline.flat (memberTexts site.style body) ++ o).textAt (level + 1)) := by
      rw [Outline.textAt_append]
      exact (ih (level + 1) (next hs _)).behind _
    subst hs
    exact ((yields_bases ht).behind ("class " ++ name)).lineThen (operationsOf_writes _) _
      (.perform (inner.body []))
  | @functionDef site name params decorators body s s' isStatic texts o hd _ ht _ ih =>
    obtain ⟨rfl, -⟩ := staticDecorators_of_ok hd
    let own := writtenParams site (isDecoratedStatic decorators) params
    have entered : start.performAll (done ++ [.define name] ++ [.push .functionBody] ++
        paramOperations site.style.naming own) = functionScope site s name own := by
      rw [Scope.performAll_append, next (next hs _), performAll_paramOperations]
      rfl
    have block : Yields site.style.naming start _ (blockEvents site.style.naming false body)
        (o.textAt (level + 1)) := ih (level + 1) entered
    have inner := (yields_guards (entered ▸ ht) (level + 1)).followed (operationsOf_writes _) block
    rw [← Outline.textAt_append] at inner
    have body := (Yields.map_perform _ inner).body (own.map (·.name))
    have opened : Yields site.style.naming start done
        (.perform (.define name) :: .perform (.push .functionBody) :: _) _ :=
      .perform (.perform body)
    simpa [Phrase.events, Stmt.events, own, writtenParams] using opened.header _ .other
  | assign hv ht _ =>
    exact yields_targets ht level hs (by rwa [List.rdrop_zero, hs])
  | @declareValue site target hint value s text given hv ht =>
    subst hs
    have given : value.render
        ⟨site.style.naming, start.performAll (done.rdrop 0)⟩ = .ok given := by
      rwa [List.rdrop_zero]
    have written := yields_assignment ht given
      ((start.performAll done).assign target (declaredKind site.style.naming hint value)).2
    have assigned : Yields site.style.naming start done
        [.perform (.assign target (declaredKind site.style.naming hint value))] _ :=
      .perform (.nil (Outline.nil.textAt level))
    simpa [Phrase.events, Stmt.events, targetsEvents, Outline.only] using
      written.lineThen (by simp) _ assigned
  | declareFirst _ => exact .perform (.nil _)
  | declareAgain _ => exact .perform (.nil _)
  | declareField _ _ => exact .perform (.nil _)
  | @update site target value op s text token given ht hop hv =>
    subst hs
    have line := ((yields_target ht).before (" " ++ token ++ "= ")).followed
      (operationsOf_targetEvents target) (.whole hv)
    simpa [Phrase.events, Stmt.events, String.append_assoc] using line.only .other
  | @branch site test body orelse s s₁ s₂ text o₁ o₂ ht h₁ _ ih₁ ih₂ =>
    have inner := (ih₁ (level + 1) hs).block (ih₂ level (behind h₁ hs)).closed
    subst hs
    exact ((yields_condition ht).behind "if ").lineThen rfl _ inner
  | @forEach site target iter body orelse s s' key header o hh _ ih =>
    have inner := Yields.map_perform [.introduce key]
      ((ih (level + 1) (next hs _)).block (p := .closing) (.nil _))
    subst hs
    have receiver := yields_loop hh
    obtain ⟨rfl, rfl, -⟩ := loopHeader_eq_ok.1 hh
    have looped := receiver.lineThen (operationsOf_loopEvents iter) (.introduces [key]) inner
    simpa [Phrase.events, Stmt.events, loopOperations, blockEvents] using looped
  | @whileLoop site test body orelse s s₁ s₂ text o₁ o₂ ht h₁ _ ih₁ ih₂ =>
    have inner := (ih₁ (level + 1) hs).block (ih₂ level (behind h₁ hs)).closed
    subst hs
    exact ((yields_condition ht).behind "while ").lineThen rfl _ inner
  | @attempt site body handlers cleanup s s₁ s₂ s₃ o₁ o₂ o₃ h₁ h₂ _ ih₁ ih₂ ih₃ =>
    have tried := behind h₁ hs
    have clauses := ((ih₂ level tried).appendOutline (ih₃ level (behind h₂ tried))).closed
    have inner := (ih₁ (level + 1) hs).block clauses
    simpa [Phrase.events, Stmt.events, blockEvents] using inner.header "try" .other
  | leave => exact .nil _
  | giveBack hv =>
    subst hs
    exact ((Yields.whole hv).behind "return ").only _
  | docText => exact .nil _
  | @expr site value s text hd hv =>
    subst hs
    rw [Phrase.events, Stmt.events, if_neg (by simp [hd])]
    exact (Yields.whole hv).only _
  | pass => exact .nil _
  | leaveLoop => exact .nil _
  | nextRound => exact .nil _
  | importNames _ => exact .nil _
  | globalNames => exact .perform (.nil _)
  | blockNil => exact .nil _
  | blockCons h₁ _ ih₁ ih₂ => exact (ih₁ level hs).appendOutline (ih₂ level (behind h₁ hs))
  | @otherwiseElif site line test body orelse s s₁ s₂ text o₁ o₂ ht h₁ _ ih₁ ih₂ =>
    have inner := (ih₁ (level + 1) hs).block (ih₂ level (behind h₁ hs))
    subst hs
    have chained := ((yields_condition ht).behind "elif ").lineThen rfl .other inner
    simpa [Phrase.events, Stmt.events, blockEvents] using chained
  | otherwiseElse he _ ih => exact ih level hs
  | clauseNil => exact .nil _
  | clauseCons _ _ ih => exact ((ih (level + 1) hs).before _).header _ _
  | handlersNil => exact .nil _
  | handlersBare h₁ _ ih₁ ih₂ =>
    exact ((ih₁ (level + 1) hs).block (ih₂ level (behind h₁ hs))).header _ _
  | @handlersNamed site caught name body rest s s₁ s₂ o₁ o₂ h₁ _ ih₁ ih₂ =>
    have entered := next hs (.introduce name)
    exact .perform
      (((ih₁ (level + 1) entered).block (ih₂ level (behind h₁ entered))).header _ _)
  | targetsNil => exact .nil _
  | targetsCons _ _ _ =>
    rw [Phrase.events, ← List.append_nil (List.map Event.perform _)]
    exact .map_perform _ (.nil _)

/-- The text of a script yields its events. -/
theorem emitScript_yields {style : Style} {script : Block} {text : String}
    (h : emitScript style script = .ok text) :
    Yields style.naming (.start style.scopeMode) [] (blockEvents style.naming false script)
      text := by
  obtain ⟨s, o, he, rfl⟩ := emitScript_eq_ok h
  exact o.textAt_zero ▸ he.yields 0 rfl

end Berrify
