import Berrify.Proofs.Expr.Flaws
import Berrify.Proofs.Stmt.Emission

/-!
# Flaws of a script

`blockFindings` lists the flaws of statements, each with the mark whether the emitter looks where it
stands. Type hints and the classes of handlers are left out : they have no meaning in the target.
Besides the two places inside of comparisons there are two more that the emitter passes over. The
receiver of a method is dropped with whatever it is, so it may collect arguments or have a default,
and of the call of `keys` that a loop goes through only the receiver is read, so its named arguments
are lost.

Every flaw of a script that was emitted stands in such a place (`Emits.overlooked`), so a script
that was emitted is free of flaws if and only if these places are. What stands there has no
influence on the text (`Stmt.emit_receiver`, `Stmt.emit_keys`).
-/

namespace Berrify

/-! ## Parameters and loops -/

/-- A parameter that collects arguments, and the flaws of its default. -/
def Param.findings (seen : Bool) (param : Param) : List Finding :=
  (match param.kind with
    | .positional => []
    | .varArgs => [⟨.collecting param.name, seen⟩]
    | .kwArgs => [⟨.collecting param.name, seen⟩]) ++ Expr.optionFindings seen param.fallback

/-- The flaws of the parameters of a function, of which the first may be the receiver. -/
def paramFindings (isMethod : Bool) : List Param → List Finding
  | [] => []
  | param :: rest => param.findings (!isMethod) ++ rest.flatMap (Param.findings true)

/-- The flaws of what a loop goes through. -/
def iterFindings : Expr → List Finding
  | .call (.attribute value "keys") [] keywords =>
    value.findings true ++ Expr.keywordFindings false keywords
  | iter => iter.findings true

/-! ## Statements -/

mutual
/-- The flaws of a statement, which stands directly in a class body or not. -/
def Stmt.findings (inClass : Bool) : Stmt → List Finding
  | .classDef _ bases body => Expr.findingsIn true bases ++ blockFindings true body
  | .functionDef _ params decorators body =>
    paramFindings (inClass && !isDecoratedStatic decorators) params ++
      Expr.findingsIn true decorators ++ blockFindings false body
  | .assign targets value => Expr.findingsIn true targets ++ value.findings true
  | .declare target _ value => target.findings true ++ Expr.optionFindings true value
  | .update target op value => target.findings true ++ op.findings true ++ value.findings true
  | .branch test body orelse =>
    test.findings true ++ blockFindings inClass body ++ blockFindings inClass orelse
  | .forEach target iter body orelse =>
    target.findings true ++ iterFindings iter ++ blockFindings inClass body ++
      (if orelse.isEmpty then [] else [⟨.loopElse, true⟩]) ++ blockFindings inClass orelse
  | .whileLoop test body orelse =>
    test.findings true ++ blockFindings inClass body ++ blockFindings inClass orelse
  | .attempt body handlers orelse cleanup =>
    blockFindings inClass body ++ handlerFindings inClass handlers ++
      (if orelse.isEmpty then [] else [⟨.attemptElse, true⟩]) ++ blockFindings inClass orelse ++
      blockFindings inClass cleanup
  | .giveBack value => Expr.optionFindings true value
  | .expr value => value.findings true
  | .pass => []
  | .leaveLoop => []
  | .nextRound => []
  | .importNames _ => []
  | .globalNames _ => []
  | .unsupported kind => [⟨.unknownStatement kind, true⟩]
/-- The flaws of the statements of a block. -/
def blockFindings (inClass : Bool) : List (Located Stmt) → List Finding
  | [] => []
  | ⟨_, stmt⟩ :: rest => stmt.findings inClass ++ blockFindings inClass rest
/-- The flaws of handlers. -/
def handlerFindings (inClass : Bool) : List (Handler (List (Located Stmt))) → List Finding
  | [] => []
  | ⟨_, _, body⟩ :: rest => blockFindings inClass body ++ handlerFindings inClass rest
end

/-- The flaws of a part of a script. -/
def Phrase.findings (inClass : Bool) : Phrase → List Finding
  | .stmt s => s.findings inClass
  | .block b => blockFindings inClass b
  | .otherwise b => blockFindings inClass b
  | .clause _ b => blockFindings inClass b
  | .handlers hs => handlerFindings inClass hs
  | .targets _ _ ts => Expr.findingsIn true ts

/-- The flaws of a script. -/
def flaws (script : Block) : List Flaw :=
  (blockFindings false script).map (·.flaw)

/-- The flaws of a script that stand where the emitter does not look. -/
def overlookedFlaws (script : Block) : List Flaw :=
  ((blockFindings false script).filter (!·.seen)).map (·.flaw)

/-! ## What the checks of a statement say -/

theorem checkParams_eq_ok {params : List Param} :
    checkParams params = .ok () ↔ ∀ param ∈ params, param.kind = .positional := by
  induction params with
  | nil => simp [checkParams, pure_eq_ok]
  | cons param rest ih => cases hk : param.kind <;> simp [checkParams, hk, ih, throw_eq_ok]

theorem Param.overlooked_findings_false (param : Param) : Overlooked (param.findings false) := by
  have hdefault : Overlooked (Expr.optionFindings false param.fallback) :=
    Expr.overlooked_optionFindings.2 fun value _ => Expr.overlooked_findings_false value false
  cases hk : param.kind <;> simpa [Param.findings, hk] using hdefault

/-- The written parameters were checked and their defaults written, the receiver was dropped. -/
theorem overlooked_paramFindings {site : Site} {isStatic : Bool} {params : List Param} {view : View}
    {texts : List (String × String)}
    (hc : checkParams (writtenParams site isStatic params) = .ok ())
    (ht : List.Forall₂ (fun given text => given.1 = text.1 ∧ given.2.render view = .ok text.2)
      (defaults (writtenParams site isStatic params)) texts) :
    Overlooked (paramFindings (site.body == .classBody && !isStatic) params) := by
  have written : ∀ param ∈ writtenParams site isStatic params,
      Overlooked (param.findings true) := by
    intro param hm
    have hdefault : Overlooked (Expr.optionFindings true param.fallback) := by
      refine Expr.overlooked_optionFindings.2 fun value hv => ?_
      have given : (param.name, value) ∈ defaults (writtenParams site isStatic params) :=
        List.mem_filterMap.2 ⟨param, hm, by rw [hv]; rfl⟩
      obtain ⟨text, -, hr⟩ := Expr.exists_of_forall₂ ht _ given
      exact Expr.overlooked_of_write hr
    rw [Param.findings, checkParams_eq_ok.1 hc param hm]
    exact hdefault
  cases params with
  | nil => exact overlooked_nil
  | cons param rest =>
    rw [writtenParams] at written
    cases hm : site.body == .classBody && !isStatic with
    | true =>
      rw [hm, ownParams, if_pos rfl, List.drop_one, List.tail_cons] at written
      exact overlooked_append.2 ⟨param.overlooked_findings_false, overlooked_flatMap.2 written⟩
    | false =>
      rw [hm, ownParams, if_neg Bool.false_ne_true, List.forall_mem_cons] at written
      exact overlooked_append.2 ⟨written.1, overlooked_flatMap.2 written.2⟩

/-- A target that can be assigned to was written. -/
theorem overlooked_of_renderTarget {view : View} {target : Expr} {text : String}
    (h : renderTarget view target = .ok text) : Overlooked (target.findings true) := by
  match target with
  | .name _ => exact overlooked_nil
  | .attribute value attr =>
    have written : (Expr.attribute value attr).write view .whole = .ok text := h
    exact Expr.overlooked_of_write written
  | .subscript value index =>
    obtain ⟨b, hb, a, ha, -⟩ := renderTarget_subscript_eq_ok.1 h
    rw [Expr.findings, overlooked_append]
    exact ⟨Expr.overlooked_of_write ha, Expr.overlooked_of_write hb⟩
  | .constant _ | .call .. | .binary .. | .unary .. | .boolean .. | .compare .. | .conditional ..
  | .dict _ | .list _ | .tuple _ | .set _ | .slice .. | .lambda .. | .template _ | .starred _
  | .unsupported _ => simp [renderTarget, throw_eq_ok] at h

/-- A base that was not written is the class of all objects. -/
theorem overlooked_of_classHeader {view : View} {name : String} {bases : List Expr}
    {header : String} (h : classHeader view name bases = .ok header) :
    Overlooked (Expr.findingsIn true bases) := by
  have proper : ∀ base ∈ properBases bases, Overlooked (base.findings true) := by
    unfold classHeader at h
    split at h
    · rename_i hb
      simp [hb]
    · rename_i base hb
      simp only [bind_eq_ok] at h
      obtain ⟨text, ht, -⟩ := h
      rw [hb, List.forall_mem_singleton]
      exact Expr.overlooked_of_write ht
    · simp [throw_eq_ok] at h
  refine Expr.overlooked_findingsIn.2 fun base hm => ?_
  cases hn : base.isName "object" with
  | true =>
    obtain ⟨id, rfl⟩ : ∃ id, base = .name id := by
      cases base <;> first | exact ⟨_, rfl⟩ | cases hn
    exact overlooked_nil
  | false => exact proper base (List.mem_filter.2 ⟨hm, by rw [hn]; rfl⟩)

theorem overlooked_of_renderCondition {view : View} {test : Expr} {text : String}
    (h : test.renderCondition view = .ok text) : Overlooked (test.findings true) := by
  obtain ⟨alone, ha, -⟩ := map_eq_ok.1 h
  exact Expr.overlooked_of_write ha

/-! ## Every script -/

/-- A part of a script that was emitted holds no flaw that is seen. -/
theorem Emits.overlooked {site : Site} {phrase : Phrase} {s s' : Scope} {o : Outline}
    (h : Emits site phrase s s' o) : Overlooked (phrase.findings (site.body == .classBody)) := by
  induction h with
  | classDef hh _ ih =>
    rw [Phrase.findings, Stmt.findings, overlooked_append]
    exact ⟨overlooked_of_classHeader hh, ih⟩
  | functionDef hs hc ht _ ih =>
    obtain ⟨rfl, hd⟩ := staticDecorators_of_ok hs
    have hdecorators : Overlooked (Expr.findingsIn true _) :=
      Expr.overlooked_findingsIn.2 fun decorator hm => by
        rw [hd decorator hm, Expr.findings]
        exact overlooked_nil
    rw [Phrase.findings, Stmt.findings, overlooked_append, overlooked_append]
    exact ⟨⟨overlooked_paramFindings hc ht, hdecorators⟩, ih⟩
  | assign hv _ ih =>
    rw [Phrase.findings, Stmt.findings, overlooked_append]
    exact ⟨ih, Expr.overlooked_of_write hv⟩
  | declareValue hv ht =>
    rw [Phrase.findings, Stmt.findings, overlooked_append]
    exact ⟨overlooked_of_renderTarget ht, Expr.overlooked_of_write hv⟩
  | declareFirst _ => simp [Phrase.findings, Stmt.findings, Expr.findings, Expr.optionFindings]
  | declareAgain _ => simp [Phrase.findings, Stmt.findings, Expr.findings, Expr.optionFindings]
  | declareField _ ht =>
    rw [Phrase.findings, Stmt.findings, overlooked_append]
    exact ⟨overlooked_of_renderTarget ht, overlooked_nil⟩
  | update ht hop hv =>
    rw [Phrase.findings, Stmt.findings, BinaryOp.findings_of_target? hop, List.append_nil,
      overlooked_append]
    exact ⟨overlooked_of_renderTarget ht, Expr.overlooked_of_write hv⟩
  | branch ht _ _ ih₁ ih₂ =>
    rw [Phrase.findings, Stmt.findings, overlooked_append, overlooked_append]
    exact ⟨⟨overlooked_of_renderCondition ht, ih₁⟩, ih₂⟩
  | forEach hh _ ih =>
    obtain ⟨rfl, rfl, receiver, keywords, rfl, text, hr, -⟩ := loopHeader_eq_ok.1 hh
    have hkeywords : Overlooked (Expr.keywordFindings false keywords) :=
      Expr.overlooked_keywordFindings_false fun k _ => Expr.overlooked_findings_false _ _
    have hiter : Overlooked (iterFindings (.call (.attribute receiver "keys") [] keywords)) :=
      overlooked_append.2 ⟨Expr.overlooked_of_write hr, hkeywords⟩
    simpa [Phrase.findings, Stmt.findings, Expr.findings, blockFindings, hiter] using ih
  | whileLoop ht _ _ ih₁ ih₂ =>
    rw [Phrase.findings, Stmt.findings, overlooked_append, overlooked_append]
    exact ⟨⟨overlooked_of_renderCondition ht, ih₁⟩, ih₂⟩
  | attempt _ _ _ ih₁ ih₂ ih₃ =>
    simp only [Phrase.findings] at ih₁ ih₂ ih₃
    simp [Phrase.findings, Stmt.findings, blockFindings, ih₁, ih₂, ih₃]
  | leave => exact overlooked_nil
  | giveBack hv => exact Expr.overlooked_of_write hv
  | docText => exact overlooked_nil
  | expr _ hv => exact Expr.overlooked_of_write hv
  | pass => exact overlooked_nil
  | leaveLoop => exact overlooked_nil
  | nextRound => exact overlooked_nil
  | importNames _ => exact overlooked_nil
  | globalNames => exact overlooked_nil
  | blockNil => exact overlooked_nil
  | blockCons _ _ ih₁ ih₂ =>
    rw [Phrase.findings, blockFindings, overlooked_append]
    exact ⟨ih₁, ih₂⟩
  | otherwiseElif ht _ _ ih₁ ih₂ =>
    rw [Phrase.findings, blockFindings, blockFindings, List.append_nil, Stmt.findings,
      overlooked_append, overlooked_append]
    exact ⟨⟨overlooked_of_renderCondition ht, ih₁⟩, ih₂⟩
  | otherwiseElse _ _ ih => exact ih
  | clauseNil => exact overlooked_nil
  | clauseCons _ _ ih => exact ih
  | handlersNil => exact overlooked_nil
  | handlersBare _ _ ih₁ ih₂ =>
    rw [Phrase.findings, handlerFindings, overlooked_append]
    exact ⟨ih₁, ih₂⟩
  | handlersNamed _ _ ih₁ ih₂ =>
    rw [Phrase.findings, handlerFindings, overlooked_append]
    exact ⟨ih₁, ih₂⟩
  | targetsNil => exact overlooked_nil
  | targetsCons ht _ ih =>
    rw [Phrase.findings, Expr.findingsIn, overlooked_append]
    exact ⟨overlooked_of_renderTarget ht, ih⟩

/-- The flaws of a script that was emitted are those that stand where the emitter does not look. -/
theorem flaws_of_emitScript {style : Style} {script : Block} {text : String}
    (h : emitScript style script = .ok text) : flaws script = overlookedFlaws script := by
  obtain ⟨s, o, ho, -⟩ := emitScript_eq_ok h
  have overlooked : Overlooked (blockFindings false script) := ho.overlooked
  have unseen : ∀ finding ∈ blockFindings false script, (!finding.seen) = true := by
    intro finding hm
    rw [overlooked finding hm]
    rfl
  rw [flaws, overlookedFlaws, List.filter_eq_self.2 unseen]

/-- A method that collects its arguments in the place of the receiver. -/
theorem flaws_of_emitScript_method :
    let script : Block := [⟨1, .classDef "A" []
      [⟨2, .functionDef "f" [{ name := "args", kind := .varArgs }] [] [⟨3, .pass⟩]⟩]⟩]
    ∃ text, emitScript {} script = .ok text ∧ flaws script = overlookedFlaws script ∧
      overlookedFlaws script = [.collecting "args"] := by
  intro script
  obtain ⟨text, run⟩ : ∃ text, emitScript {} script = .ok text := ⟨_, rfl⟩
  exact ⟨text, run, flaws_of_emitScript run, by decide⟩

/-- Scripts that are emitted in spite of their flaws : a method that collects its arguments in the
place of the receiver, a loop through a call of `keys` with a named argument, a call with an
unpacked mapping that is looked for in an empty list, and an operand without an operator. -/
theorem emitted_scripts_with_flaws :
    let method : Block := [⟨1, .classDef "A" []
      [⟨2, .functionDef "f" [{ name := "args", kind := .varArgs }] [] [⟨3, .pass⟩]⟩]⟩]
    let loop : Block := [⟨1, .forEach (.name "k")
      (.call (.attribute (.name "m") "keys") [] [⟨some "x", .constant (.int "1")⟩])
      [⟨2, .pass⟩] []⟩]
    let test : Block := [⟨1, .expr
      (.compare (.call (.name "f") [] [⟨none, .name "k"⟩]) [.member] [.list []])⟩]
    let surplus : Block := [⟨1, .expr
      (.compare (.name "a") [.lt] [.name "b", .starred (.name "c")])⟩]
    (emitScript {} method = .ok "class A\n    def f()\n    end\nend\n" ∧
      flaws method = [.collecting "args"]) ∧
    (emitScript {} loop = .ok "for k : m.keys()\nend\n" ∧ flaws loop = [.keyword (some "x")]) ∧
    (emitScript {} test = .ok "false\n" ∧ flaws test = [.keyword none]) ∧
    (emitScript {} surplus = .ok "a < b\n" ∧ flaws surplus = [.unpacking]) := by
  exact ⟨⟨rfl, by decide⟩, ⟨rfl, by decide⟩, ⟨rfl, by decide⟩, ⟨rfl, by decide⟩⟩

/-! ## Where the emitter does not look -/

/-- The receiver of a method has no influence. -/
theorem Stmt.emit_receiver {site : Site} (hs : site.body = .classBody) {decorators : List Expr}
    (hd : isDecoratedStatic decorators = false) (name : String) (receiver other : Param)
    (params : List Param) (body : Block) (scope : Scope) :
    (Stmt.functionDef name (receiver :: params) decorators body).emit site scope =
      (Stmt.functionDef name (other :: params) decorators body).emit site scope := by
  cases h : staticDecorators name decorators with
  | error cause => simp only [Stmt.emit, h]; rfl
  | ok isStatic =>
    obtain ⟨rfl, -⟩ := staticDecorators_of_ok h
    simp only [Stmt.emit, h, hd, hs]
    rfl

/-- The named arguments of the call of `keys` that a loop goes through have no influence. -/
theorem Stmt.emit_keys (site : Site) (target receiver : Expr)
    (keywords others : List (Keyword Expr)) (body orelse : Block) (scope : Scope) :
    (Stmt.forEach target (.call (.attribute receiver "keys") [] keywords) body orelse).emit site
        scope =
      (Stmt.forEach target (.call (.attribute receiver "keys") [] others) body orelse).emit site
        scope := by
  have header (view : View) :
      loopHeader view target (.call (.attribute receiver "keys") [] keywords) orelse =
        loopHeader view target (.call (.attribute receiver "keys") [] others) orelse := rfl
  simp only [Stmt.emit, header]

end Berrify
