import Berrify.Proofs.Expr.Views
import Berrify.Proofs.Stmt.Operations

/-!
# Definitions do not leak

With one frame for each body, all that the statements inside of a class or function do to the scope
is done to frames that are closed again behind it, or to the frame of a class around it. The frame
of the script is neither, so behind a definition that stands directly in the script the names are as
before it (`AtScript.definition`). What a definition leaves behind is the functions that it makes
known, and of these only their names matter (`Emits.alike`). So the text of the statements behind a
definition depends on the names of the functions in it and on nothing else
(`definitions_do_not_leak`).
-/

namespace Berrify

/-! ## Operations that close what they open -/

/-- Operations in which every body that is opened is closed, and no other. -/
inductive Balanced : List Operation → Prop where
  | nil : Balanced []
  | step {op : Operation} {ops : List Operation} :
      op.isFraming = false → Balanced ops → Balanced (op :: ops)
  | body (kind : FrameKind) {inner ops : List Operation} :
      Balanced inner → Balanced ops → Balanced (.push kind :: (inner ++ .pop :: ops))

namespace Balanced

variable {ops others : List Operation}

theorem append (h : Balanced ops) (h' : Balanced others) : Balanced (ops ++ others) := by
  induction h with
  | nil => exact h'
  | step hop _ ih => exact .step hop ih
  | @body kind inner ops hinner _ _ ih =>
    have whole := Balanced.body kind hinner ih
    rwa [List.cons_append, List.append_assoc, List.cons_append]

theorem of_forall (h : ∀ op ∈ ops, op.isFraming = false) : Balanced ops := by
  induction ops with
  | nil => exact .nil
  | cons op ops ih =>
    obtain ⟨hop, hops⟩ := List.forall_mem_cons.1 h
    exact .step hop (ih hops)

end Balanced

theorem balanced_paramOperations (naming : Naming) (params : List Param) :
    Balanced (paramOperations naming params) := by
  refine .of_forall fun op hm => ?_
  obtain ⟨param, -, rfl⟩ := List.mem_map.1 hm
  rfl

mutual
theorem Stmt.balanced_operations (naming : Naming) (inClass : Bool) (stmt : Stmt) :
    Balanced (stmt.operations naming inClass) := by
  match stmt with
  | .classDef name bases body =>
    exact .body .classBody (balanced_blockOperations naming true body) .nil
  | .functionDef name params decorators body =>
    have inner := (balanced_paramOperations naming
      (ownParams (inClass && !isDecoratedStatic decorators) params)).append
        (balanced_blockOperations naming false body)
    exact .step rfl (.body .functionBody inner .nil)
  | .assign targets value =>
    refine .of_forall fun op hm => ?_
    obtain ⟨target, -, rfl⟩ := List.mem_map.1 hm
    rfl
  | .declare target hint none | .declare target hint (some value) | .globalNames names =>
    exact .step rfl .nil
  | .branch test body orelse | .whileLoop test body orelse =>
    exact (balanced_blockOperations naming inClass body).append
      (balanced_blockOperations naming inClass orelse)
  | .forEach target iter body orelse =>
    have loop : Balanced (loopOperations target) := by
      refine .of_forall fun op hm => ?_
      cases target <;> simp only [loopOperations, List.mem_singleton, List.not_mem_nil] at hm
      rw [hm]
      rfl
    exact (loop.append (balanced_blockOperations naming inClass body)).append
      (balanced_blockOperations naming inClass orelse)
  | .attempt body handlers orelse cleanup =>
    exact (((balanced_blockOperations naming inClass body).append
      (balanced_handlersOperations naming inClass handlers)).append
      (balanced_blockOperations naming inClass orelse)).append
      (balanced_blockOperations naming inClass cleanup)
  | .update .. | .giveBack _ | .expr _ | .pass | .leaveLoop | .nextRound | .importNames _
  | .unsupported _ => exact .nil
theorem balanced_blockOperations (naming : Naming) (inClass : Bool) (block : Block) :
    Balanced (blockOperations naming inClass block) := by
  match block with
  | [] => exact .nil
  | ⟨_, stmt⟩ :: rest =>
    exact (stmt.balanced_operations naming inClass).append
      (balanced_blockOperations naming inClass rest)
theorem balanced_handlersOperations (naming : Naming) (inClass : Bool)
    (handlers : List (Handler Block)) : Balanced (handlersOperations naming inClass handlers) := by
  match handlers with
  | [] => exact .nil
  | ⟨_, name, body⟩ :: rest =>
    have named : Balanced (handlerOperations name) := by
      cases name with
      | none => exact .nil
      | some name => exact .step rfl .nil
    exact (named.append (balanced_blockOperations naming inClass body)).append
      (balanced_handlersOperations naming inClass rest)
end

/-! ## Frames that are kept -/

/-- A frame is the same as before, unless it is that of a class, where fields are recorded. -/
def Frame.Kept (f g : Frame) : Prop :=
  g.kind = f.kind ∧ (f.kind ≠ .classBody → g = f)

theorem Frame.Kept.refl (f : Frame) : f.Kept f :=
  ⟨rfl, fun _ => rfl⟩

theorem Frame.Kept.trans {f g h : Frame} (hfg : f.Kept g) (hgh : g.Kept h) : f.Kept h := by
  refine ⟨hgh.1.trans hfg.1, fun hf => ?_⟩
  have same : g = f := hfg.2 hf
  rw [same] at hgh
  exact hgh.2 hf

theorem kept_refl (fs : List Frame) : List.Forall₂ Frame.Kept fs fs :=
  List.forall₂_same.2 fun f _ => .refl f

namespace Scope

/-- The frames around a body are kept, and the body is of the same kind. -/
structure Keeps (s t : Scope) : Prop where
  mode : t.mode = s.mode
  kind : t.current.kind = s.current.kind
  outer : List.Forall₂ Frame.Kept s.outer t.outer

theorem Keeps.refl (s : Scope) : s.Keeps s :=
  ⟨rfl, rfl, kept_refl s.outer⟩

theorem Keeps.trans {s t u : Scope} (h : s.Keeps t) (h' : t.Keeps u) : s.Keeps u := by
  have compose {fs gs hs : List Frame} (hfg : List.Forall₂ Frame.Kept fs gs) :
      List.Forall₂ Frame.Kept gs hs → List.Forall₂ Frame.Kept fs hs := by
    intro hgh
    induction hfg generalizing hs with
    | nil =>
      cases hgh
      exact .nil
    | cons hf _ ih =>
      cases hgh with
      | cons hg hgh => exact .cons (hf.trans hg) (ih hgh)
  exact ⟨h'.mode.trans h.mode, h'.kind.trans h.kind, compose h.outer h'.outer⟩

theorem declare_keeps (s : Scope) (name : String) (kind : Container) :
    s.Keeps (s.declare name kind) :=
  ⟨rfl, rfl, kept_refl s.outer⟩

theorem declareGlobals_keeps (s : Scope) (names : List String) :
    s.Keeps (declareGlobals names s) := by
  induction names generalizing s with
  | nil => exact .refl s
  | cons name names ih => exact (s.declare_keeps name (s.kindOf name)).trans (ih _)

theorem kept_recordInClass? {path : String} {kind : Container} : ∀ {fs gs : List Frame},
    recordInClass? path kind fs = some gs → List.Forall₂ Frame.Kept fs gs
  | [], gs, h => by cases h
  | f :: fs, gs, h => by
    unfold recordInClass? at h
    split at h
    · cases h
      exact .cons ⟨rfl, fun hk => absurd ‹_› hk⟩ (kept_refl fs)
    · obtain ⟨rest, hrest, rfl⟩ := Option.map_eq_some_iff.1 h
      exact .cons (.refl f) (kept_recordInClass? hrest)

theorem recordKind_keeps (s : Scope) (path : String) (kind : Container) :
    s.Keeps (s.recordKind path kind) := by
  have here : s.Keeps (s.recordHere path kind) := ⟨rfl, rfl, kept_refl s.outer⟩
  unfold recordKind recordField
  split
  · split
    · exact here
    · split
      · exact ⟨rfl, rfl, kept_recordInClass? ‹_›⟩
      · exact here
  · exact here

theorem assign_keeps (s : Scope) (target : Expr) (kind : Container) :
    s.Keeps (s.assign target kind).1 := by
  unfold assign
  split
  · exact s.declare_keeps _ kind
  · split
    · exact s.recordKind_keeps _ kind
    · exact .refl s
  · exact .refl s

/-- An operation inside of a body keeps the frames around it. -/
theorem perform_keeps (s : Scope) {op : Operation} (h : op.isFraming = false) :
    s.Keeps (s.perform op) := by
  cases op with
  | push kind => cases h
  | pop => cases h
  | define name => exact ⟨rfl, rfl, kept_refl s.outer⟩
  | parameter name kind => exact s.declare_keeps name kind
  | introduce name => exact s.declare_keeps name .unknown
  | share names => exact s.declareGlobals_keeps names
  | assign target kind => exact s.assign_keeps target kind
  | annotate target kind =>
    change s.Keeps (s.annotate target kind)
    unfold annotate
    split
    · split
      · exact .refl s
      · exact s.declare_keeps _ kind
    · exact s.assign_keeps target kind

/-- A body that is opened and closed keeps the frames around it, and that of the body it is in. -/
theorem keeps_body {s t : Scope} (hmode : s.mode = .lexical) {kind : FrameKind}
    (h : (s.push kind).Keeps t) :
    s.Keeps t.pop ∧ s.current.Kept t.pop.current := by
  have pushed : s.push kind = { s with current := { kind }, outer := s.current :: s.outer } := by
    rw [push, hmode]
  rw [pushed] at h
  have hmode' : t.mode = .lexical := h.mode.trans hmode
  cases hold : t.outer with
  | nil =>
    have impossible := h.outer
    rw [hold] at impossible
    cases impossible
  | cons frame rest =>
    have kept := h.outer
    rw [hold, List.forall₂_cons] at kept
    have popped : t.pop = { t with current := frame, outer := rest } := by
      rw [pop, hmode', hold]
    rw [popped]
    exact ⟨⟨h.mode, kept.1.1, kept.2⟩, kept.1⟩

end Scope

theorem Balanced.keeps {ops : List Operation} (h : Balanced ops) {s : Scope}
    (hmode : s.mode = .lexical) : s.Keeps (s.performAll ops) := by
  induction h generalizing s with
  | nil => exact .refl s
  | step hop _ ih =>
    have first := s.perform_keeps hop
    exact first.trans (ih (first.mode.trans hmode))
  | @body kind inner ops _ _ ih₁ ih₂ =>
    have pushed : (s.push kind).mode = .lexical := by
      rw [Scope.push, hmode]
    have closed := (Scope.keeps_body hmode (ih₁ pushed)).1
    rw [Scope.performAll_cons, Scope.performAll_append, Scope.performAll_cons]
    exact closed.trans (ih₂ (closed.mode.trans hmode))

/-! ## Directly in the script -/

namespace Scope

/-- Only the frame of the script is open. -/
structure AtScript (s : Scope) : Prop where
  mode : s.mode = .lexical
  kind : s.current.kind = .script
  outer : s.outer = []

theorem atScript_start : (start .lexical).AtScript :=
  ⟨rfl, rfl, rfl⟩

theorem AtScript.of_keeps {s t : Scope} (h : s.AtScript) (hk : s.Keeps t) : t.AtScript := by
  have closed := hk.outer
  rw [h.outer, List.forall₂_nil_left_iff] at closed
  exact ⟨hk.mode.trans h.mode, hk.kind.trans h.kind, closed⟩

/-- Behind a body the frames are as before it. -/
theorem AtScript.body {s : Scope} (h : s.AtScript) (kind : FrameKind) {inner : List Operation}
    (hb : Balanced inner) :
    s.performAll (.push kind :: (inner ++ [.pop])) =
      { s with functions := (s.performAll (.push kind :: (inner ++ [.pop]))).functions } := by
  have pushed : (s.push kind).mode = .lexical := by
    rw [push, h.mode]
  obtain ⟨keeps, kept⟩ := keeps_body h.mode (hb.keeps pushed)
  have same := kept.2 (by rw [h.kind]; exact FrameKind.noConfusion)
  have alone := (h.of_keeps keeps).outer
  have closed : s.performAll (.push kind :: (inner ++ [.pop])) =
      ((s.push kind).performAll inner).pop := by
    rw [performAll_cons, performAll_append]
    rfl
  rw [closed]
  generalize ((s.push kind).performAll inner).pop = t at *
  obtain ⟨mode, current, outer, functions⟩ := s
  obtain ⟨mode', current', outer', functions'⟩ := t
  cases keeps.mode
  cases same
  cases h.outer
  cases alone
  rfl

end Scope

/-! ## Functions that are known -/

/-- The function that an operation makes known. -/
def Operation.defined : Operation → List String
  | define name => [name]
  | _ => []

namespace Scope

/-- A scope in which other functions are known. -/
def knowing (s : Scope) (known : List String) : Scope :=
  { s with functions := known }

theorem declareGlobals_knowing (s : Scope) (known names : List String) :
    declareGlobals names (s.knowing known) = (declareGlobals names s).knowing known := by
  induction names generalizing s with
  | nil => rfl
  | cons name names ih => exact ih (s.declare name (s.kindOf name))

theorem recordKind_knowing (s : Scope) (known : List String) (path : String) (kind : Container) :
    (s.knowing known).recordKind path kind = (s.recordKind path kind).knowing known := by
  by_cases hfield : isField path = true
  · by_cases hclass : s.current.kind = .classBody
    · simp [recordKind, recordField, recordHere, knowing, hfield, hclass]
    · cases hr : recordInClass? path kind s.outer <;>
        simp [recordKind, recordField, recordHere, knowing, hfield, hclass, hr]
  · simp [recordKind, recordHere, knowing, hfield]

theorem assign_knowing (s : Scope) (known : List String) (target : Expr) (kind : Container) :
    ((s.knowing known).assign target kind).1 = (s.assign target kind).1.knowing known := by
  unfold assign
  split
  · rfl
  · split
    · exact s.recordKind_knowing known _ kind
    · rfl
  · rfl

/-- No operation looks at the functions that are known. -/
theorem perform_knowing (s : Scope) (known : List String) (op : Operation) :
    (s.knowing known).perform op = (s.perform op).knowing (op.defined ++ known) := by
  cases op with
  | push kind =>
    obtain ⟨mode, current, outer, functions⟩ := s
    cases mode <;> rfl
  | pop =>
    obtain ⟨mode, current, outer, functions⟩ := s
    cases mode <;> cases outer <;> rfl
  | define name => rfl
  | parameter name kind => rfl
  | introduce name => rfl
  | share names => exact s.declareGlobals_knowing known names
  | assign target kind => exact s.assign_knowing known target kind
  | annotate target kind =>
    change (s.knowing known).annotate target kind = (s.annotate target kind).knowing known
    unfold annotate
    split
    · rename_i id
      change (if s.declaresHere id then s.knowing known else (s.declare id kind).knowing known) = _
      split <;> rfl
    · exact s.assign_knowing known target kind

/-- The functions that are known behind an operation. -/
theorem functions_perform (s : Scope) (op : Operation) :
    (s.perform op).functions = op.defined ++ s.functions := by
  exact congrArg functions (s.perform_knowing s.functions op)

theorem knows_performAll (s : Scope) (ops : List Operation) (name : String) :
    (s.performAll ops).knows name = true ↔
      name ∈ ops.flatMap Operation.defined ∨ s.knows name = true := by
  induction ops generalizing s with
  | nil => simp
  | cons op ops ih =>
    rw [performAll_cons, ih, List.flatMap_cons, List.mem_append, or_assoc, or_left_comm]
    refine or_congr_right ?_
    simp [knows, functions_perform]

end Scope

/-! ## Scopes that differ in nothing that is read -/

namespace Scope

/-- Two scopes have the same frames and know the same functions. -/
structure Alike (s t : Scope) : Prop where
  frames : t = s.knowing t.functions
  knows : ∀ name, s.knows name = t.knows name

namespace Alike

variable {s t : Scope}

theorem perform (h : s.Alike t) (op : Operation) : (s.perform op).Alike (t.perform op) := by
  refine ⟨?_, fun name => ?_⟩
  · rw [functions_perform, ← perform_knowing, ← h.frames]
  · have same := h.knows name
    unfold Scope.knows at same ⊢
    rw [functions_perform, functions_perform, List.contains_append, List.contains_append, same]

theorem performAll (h : s.Alike t) (ops : List Operation) :
    (s.performAll ops).Alike (t.performAll ops) := by
  induction ops generalizing s t with
  | nil => exact h
  | cons op ops ih => exact ih (h.perform op)

theorem declaresHere (h : s.Alike t) (name : String) :
    s.declaresHere name = t.declaresHere name := by
  rw [h.frames]
  rfl

theorem form (h : s.Alike t) (target : Expr) (kind : Container) :
    (s.assign target kind).2 = (t.assign target kind).2 := by
  rw [h.frames]
  unfold Scope.assign
  split
  · rfl
  · split <;> rfl
  · rfl

/-- Expressions look alike from both. -/
theorem agrees (h : s.Alike t) (site : Site) : (site.view s).Agrees (site.view t) := by
  refine ⟨rfl, fun path => ?_, h.knows⟩
  change s.kindOf path = t.kindOf path
  rw [h.frames]
  rfl

end Alike

end Scope

/-- A target is written alike if it is as an expression, and so are its parts. -/
theorem renderTarget_congr {v w : View} {target : Expr} (h : Expr.SameText v w target)
    (hparts : ∀ part ∈ target.parts, Expr.SameText v w part) :
    renderTarget v target = renderTarget w target := by
  match target with
  | .name _ => exact h .whole
  | .attribute _ _ => exact h .whole
  | .subscript value index =>
    have hvalue : value.render v = value.render w := hparts value (by simp [Expr.parts]) .whole
    have hindex : index.renderIndex v = index.renderIndex w :=
      hparts index (by simp [Expr.parts]) .index
    simp only [renderTarget, hvalue, hindex]
  | .constant _ | .call .. | .binary .. | .unary .. | .boolean .. | .compare .. | .conditional ..
  | .dict _ | .list _ | .tuple _ | .set _ | .slice .. | .lambda .. | .template _ | .starred _
  | .unsupported _ => rfl

theorem renderTarget_eq {v w : View} (h : v.Agrees w) (target : Expr) :
    renderTarget v target = renderTarget w target :=
  renderTarget_congr (target.write_eq h) fun part _ => part.write_eq h

theorem classHeader_congr {v w : View} (name : String) {bases : List Expr}
    (h : ∀ base ∈ bases, Expr.SameText v w base) :
    classHeader v name bases = classHeader w name bases := by
  have kept : ∀ base ∈ properBases bases, Expr.SameText v w base :=
    fun base hm => h base (List.mem_of_mem_filter hm)
  unfold classHeader
  match hb : properBases bases with
  | [] => rfl
  | [base] =>
    have same : base.render v = base.render w := kept base (by simp [hb]) .whole
    simp only [same]
  | _ :: _ :: _ => rfl

theorem classHeader_eq {v w : View} (h : v.Agrees w) (name : String) (bases : List Expr) :
    classHeader v name bases = classHeader w name bases :=
  classHeader_congr name fun base _ => base.write_eq h

/-- Of what a loop goes through, only the receiver of `keys` is written. -/
theorem loopHeader_congr {v w : View} (target : Expr) {iter : Expr} (orelse : Block)
    (h : ∀ part ∈ iter.parts, ∀ inner ∈ part.parts, Expr.SameText v w inner) :
    loopHeader v target iter orelse = loopHeader w target iter orelse := by
  unfold loopHeader
  match hr : loopReceiver iter with
  | .error cause => rfl
  | .ok receiver =>
    obtain ⟨keywords, rfl⟩ := loopReceiver_eq_ok.1 hr
    have same : receiver.render v = receiver.render w :=
      h (.attribute receiver "keys") (by simp [Expr.parts]) receiver (by simp [Expr.parts]) .whole
    have found : (Except.ok receiver : Except Cause Expr) = pure receiver := rfl
    simp only [found, pure_bind, same]

theorem loopHeader_eq {v w : View} (h : v.Agrees w) (target iter : Expr) (orelse : Block) :
    loopHeader v target iter orelse = loopHeader w target iter orelse :=
  loopHeader_congr target orelse fun _ _ inner _ => inner.write_eq h

/-- The texts of defaults are determined by the defaults. -/
theorem guardTexts_eq {v w : View} (h : v.Agrees w) {given : List (String × Expr)}
    {texts texts' : List (String × String)}
    (ht : List.Forall₂ (fun g t => g.1 = t.1 ∧ g.2.render v = .ok t.2) given texts)
    (ht' : List.Forall₂ (fun g t => g.1 = t.1 ∧ g.2.render w = .ok t.2) given texts') :
    texts = texts' := by
  induction ht generalizing texts' with
  | nil =>
    cases ht'
    rfl
  | @cons g t _ _ hg _ ih =>
    cases ht' with
    | @cons _ t' _ _ hg' ht' =>
      have text : t.2 = t'.2 := ok_unique (g.2.render_eq h) hg.2 hg'.2
      rw [Prod.ext (hg.1.symm.trans hg'.1) text, ih ht']

theorem alike_functionScope {s t : Scope} (h : s.Alike t) (site : Site) (name : String)
    (params : List Param) :
    (functionScope site s name params).Alike (functionScope site t name params) := by
  have opened := (h.perform (.define name)).perform (.push .functionBody)
  have declared := opened.performAll (paramOperations site.style.naming params)
  rwa [performAll_paramOperations, performAll_paramOperations] at declared

/-- From scopes that are alike a part of a script is emitted in the same way, and the scopes behind
it are alike again. -/
theorem Emits.alike {site : Site} {phrase : Phrase} {s s' : Scope} {o : Outline}
    (h : Emits site phrase s s' o) : ∀ {t t' : Scope} {o' : Outline}, s.Alike t →
      Emits site phrase t t' o' → o = o' ∧ s'.Alike t' := by
  induction h with
  | @classDef site name bases body s s' header o hh _ ih =>
    intro t t' o' hst h'
    cases h' with
    | classDef hh' hb =>
      obtain rfl := ok_unique (classHeader_eq (hst.agrees site) name bases) hh hh'
      obtain ⟨rfl, behind⟩ := ih (hst.perform (.push .classBody)) hb
      exact ⟨rfl, behind.perform .pop⟩
  | @functionDef site name params decorators body s s' isStatic texts o hs _ ht _ ih =>
    intro t t' o' hst h'
    cases h' with
    | functionDef hs' _ ht' hb =>
      obtain rfl := ok_unique rfl hs hs'
      have inside := alike_functionScope hst site name (writtenParams site isStatic params)
      obtain rfl := guardTexts_eq (inside.agrees site) ht ht'
      obtain ⟨rfl, behind⟩ := ih inside hb
      exact ⟨rfl, behind.perform .pop⟩
  | @assign site targets value s s' text o ht _ ih =>
    intro t t' o' hst h'
    cases h' with
    | assign ht' ho =>
      obtain rfl := ok_unique (value.render_eq (hst.agrees site)) ht ht'
      exact ih hst ho
  | @declareValue site target hint value s text given hg ht =>
    intro t t' o' hst h'
    cases h' with
    | declareValue hg' ht' =>
      obtain rfl := ok_unique (value.render_eq (hst.agrees site)) hg hg'
      obtain rfl := ok_unique (renderTarget_eq (hst.agrees site) target) ht ht'
      rw [hst.form]
      exact ⟨rfl, hst.perform (.assign target (declaredKind site.style.naming hint value))⟩
  | @declareFirst site id hint s hd =>
    intro t t' o' hst h'
    cases h' with
    | declareFirst _ =>
      exact ⟨rfl, hst.perform (.parameter id (.ofHint site.style.naming hint))⟩
    | declareAgain hd' =>
      rw [← hst.declaresHere, hd] at hd'
      cases hd'
    | declareField hb _ => cases hb
  | @declareAgain site id hint s hd =>
    intro t t' o' hst h'
    cases h' with
    | declareFirst hd' =>
      rw [← hst.declaresHere, hd] at hd'
      cases hd'
    | declareAgain _ => exact ⟨rfl, hst⟩
    | declareField hb _ => cases hb
  | @declareField site target hint s text hb _ =>
    intro t t' o' hst h'
    cases h' with
    | declareFirst _ => cases hb
    | declareAgain _ => cases hb
    | declareField _ _ =>
      exact ⟨rfl, hst.perform (.assign target (.ofHint site.style.naming hint))⟩
  | @update site target value op s text token given ht hop hg =>
    intro t t' o' hst h'
    cases h' with
    | update ht' hop' hg' =>
      obtain rfl := ok_unique (renderTarget_eq (hst.agrees site) target) ht ht'
      obtain rfl := ok_unique (value.render_eq (hst.agrees site)) hg hg'
      obtain rfl := Option.some.inj (hop.symm.trans hop')
      exact ⟨rfl, hst⟩
  | @branch site test body orelse s s₁ s₂ text o₁ o₂ ht _ _ ih₁ ih₂ =>
    intro t t' o' hst h'
    cases h' with
    | branch ht' hb ho =>
      obtain rfl := ok_unique (test.renderCondition_eq (hst.agrees site)) ht ht'
      obtain ⟨rfl, between⟩ := ih₁ hst hb
      obtain ⟨rfl, behind⟩ := ih₂ between ho
      exact ⟨rfl, behind⟩
  | @forEach site target iter body orelse s s' key header o hh _ ih =>
    intro t t' o' hst h'
    cases h' with
    | forEach hh' hb =>
      obtain ⟨rfl, rfl⟩ := Prod.mk.inj
        (ok_unique (loopHeader_eq (hst.agrees site) target iter orelse) hh hh')
      obtain ⟨rfl, behind⟩ := ih (hst.perform (.introduce key)) hb
      exact ⟨rfl, behind⟩
  | @whileLoop site test body orelse s s₁ s₂ text o₁ o₂ ht _ _ ih₁ ih₂ =>
    intro t t' o' hst h'
    cases h' with
    | whileLoop ht' hb ho =>
      obtain rfl := ok_unique (test.renderCondition_eq (hst.agrees site)) ht ht'
      obtain ⟨rfl, between⟩ := ih₁ hst hb
      obtain ⟨rfl, behind⟩ := ih₂ between ho
      exact ⟨rfl, behind⟩
  | attempt _ _ _ ih₁ ih₂ ih₃ =>
    intro t t' o' hst h'
    cases h' with
    | attempt hb hh hc =>
      obtain ⟨rfl, between⟩ := ih₁ hst hb
      obtain ⟨rfl, between⟩ := ih₂ between hh
      obtain ⟨rfl, behind⟩ := ih₃ between hc
      exact ⟨rfl, behind⟩
  | @giveBack site value s text ht =>
    intro t t' o' hst h'
    cases h' with
    | giveBack ht' =>
      obtain rfl := ok_unique (value.render_eq (hst.agrees site)) ht ht'
      exact ⟨rfl, hst⟩
  | docText =>
    intro t t' o' hst h'
    cases h' with
    | docText => exact ⟨rfl, hst⟩
    | expr hd _ => cases hd
  | @expr site value s text hd ht =>
    intro t t' o' hst h'
    cases h' with
    | docText => cases hd
    | expr _ ht' =>
      obtain rfl := ok_unique (value.render_eq (hst.agrees site)) ht ht'
      exact ⟨rfl, hst⟩
  | globalNames =>
    intro t t' o' hst h'
    cases h' with
    | globalNames => exact ⟨rfl, hst.perform (.share _)⟩
  | leave | pass | leaveLoop | nextRound | importNames _ | blockNil | clauseNil | handlersNil
  | targetsNil =>
    intro t t' o' hst h'
    cases h' <;> first | exact ⟨rfl, hst⟩ | contradiction
  | blockCons _ _ ih₁ ih₂ =>
    intro t t' o' hst h'
    cases h' with
    | blockCons hf ho =>
      obtain ⟨rfl, between⟩ := ih₁ hst hf
      obtain ⟨rfl, behind⟩ := ih₂ between ho
      exact ⟨rfl, behind⟩
  | @otherwiseElif site n test body orelse s s₁ s₂ text o₁ o₂ ht _ _ ih₁ ih₂ =>
    intro t t' o' hst h'
    cases h' with
    | otherwiseElif ht' hb ho =>
      obtain rfl := ok_unique (test.renderCondition_eq (hst.agrees site)) ht ht'
      obtain ⟨rfl, between⟩ := ih₁ hst hb
      obtain ⟨rfl, behind⟩ := ih₂ between ho
      exact ⟨rfl, behind⟩
    | otherwiseElse he _ => cases he
  | otherwiseElse he _ ih =>
    intro t t' o' hst h'
    cases h' with
    | otherwiseElif _ _ _ => cases he
    | otherwiseElse _ ho => exact ih hst ho
  | clauseCons hne _ ih =>
    intro t t' o' hst h'
    cases h' with
    | clauseNil => exact absurd rfl hne
    | clauseCons _ hb =>
      obtain ⟨rfl, behind⟩ := ih hst hb
      exact ⟨rfl, behind⟩
  | handlersBare _ _ ih₁ ih₂ =>
    intro t t' o' hst h'
    cases h' with
    | handlersBare hb ho =>
      obtain ⟨rfl, between⟩ := ih₁ hst hb
      obtain ⟨rfl, behind⟩ := ih₂ between ho
      exact ⟨rfl, behind⟩
  | handlersNamed _ _ ih₁ ih₂ =>
    intro t t' o' hst h'
    cases h' with
    | handlersNamed hb ho =>
      obtain ⟨rfl, between⟩ := ih₁ (hst.perform (.introduce _)) hb
      obtain ⟨rfl, behind⟩ := ih₂ between ho
      exact ⟨rfl, behind⟩
  | @targetsCons site value text kind target rest s s' o ht _ ih =>
    intro t t' o' hst h'
    cases h' with
    | targetsCons ht' ho =>
      obtain rfl := ok_unique (renderTarget_eq (hst.agrees site) target) ht ht'
      obtain ⟨rfl, behind⟩ := ih (hst.perform (.assign target kind)) ho
      rw [hst.form]
      exact ⟨rfl, behind⟩

theorem Scope.Alike.lines_eq {site : Site} {block : Block} {s t : Scope} {r r' : Emitted}
    (h : s.Alike t) (hs : emitBlock site block s = .ok r) (ht : emitBlock site block t = .ok r') :
    r.lines = r'.lines := by
  obtain ⟨o, ho, hlines⟩ := emitBlock_follows site block hs
  obtain ⟨o', ho', hlines'⟩ := emitBlock_follows site block ht
  rw [← hlines, ← hlines', (ho.alike h ho').1]

/-! ## Definitions -/

/-- Whether a statement is a class or a function. -/
def Stmt.isDefinition : Stmt → Bool
  | classDef .. => true
  | functionDef .. => true
  | _ => false

mutual
/-- The names of the functions that are defined in a statement, at any depth. -/
def Stmt.functionNames : Stmt → List String
  | .classDef _ _ body => blockFunctionNames body
  | .functionDef name _ _ body => name :: blockFunctionNames body
  | .branch _ body orelse => blockFunctionNames body ++ blockFunctionNames orelse
  | .forEach _ _ body orelse => blockFunctionNames body ++ blockFunctionNames orelse
  | .whileLoop _ body orelse => blockFunctionNames body ++ blockFunctionNames orelse
  | .attempt body handlers orelse cleanup =>
    blockFunctionNames body ++ handlersFunctionNames handlers ++ blockFunctionNames orelse ++
      blockFunctionNames cleanup
  | _ => []
/-- The names of the functions that are defined in a block. -/
def blockFunctionNames : List (Located Stmt) → List String
  | [] => []
  | ⟨_, stmt⟩ :: rest => stmt.functionNames ++ blockFunctionNames rest
/-- The names of the functions that are defined in handlers. -/
def handlersFunctionNames : List (Handler (List (Located Stmt))) → List String
  | [] => []
  | ⟨_, _, body⟩ :: rest => blockFunctionNames body ++ handlersFunctionNames rest
end

theorem defined_paramOperations (naming : Naming) (params : List Param) :
    (paramOperations naming params).flatMap Operation.defined = [] := by
  refine List.flatMap_eq_nil_iff.2 fun op hm => ?_
  obtain ⟨param, -, rfl⟩ := List.mem_map.1 hm
  rfl

mutual
/-- The operations of a statement make its functions known. -/
theorem Stmt.defined_operations (naming : Naming) (inClass : Bool) (stmt : Stmt) :
    (stmt.operations naming inClass).flatMap Operation.defined = stmt.functionNames := by
  match stmt with
  | .classDef name bases body =>
    simp [Stmt.operations, Stmt.functionNames, Operation.defined,
      defined_blockOperations naming true body]
  | .functionDef name params decorators body =>
    simp [Stmt.operations, Stmt.functionNames, Operation.defined, defined_paramOperations,
      defined_blockOperations naming false body]
  | .assign targets value =>
    refine List.flatMap_eq_nil_iff.2 fun op hm => ?_
    obtain ⟨target, -, rfl⟩ := List.mem_map.1 hm
    rfl
  | .declare target hint none | .declare target hint (some value) | .globalNames names => rfl
  | .branch test body orelse | .whileLoop test body orelse =>
    simp [Stmt.operations, Stmt.functionNames, defined_blockOperations naming inClass body,
      defined_blockOperations naming inClass orelse]
  | .forEach target iter body orelse =>
    have loop : (loopOperations target).flatMap Operation.defined = [] := by
      cases target <;> rfl
    simp [Stmt.operations, Stmt.functionNames, loop, defined_blockOperations naming inClass body,
      defined_blockOperations naming inClass orelse]
  | .attempt body handlers orelse cleanup =>
    simp [Stmt.operations, Stmt.functionNames, defined_blockOperations naming inClass body,
      defined_handlersOperations naming inClass handlers,
      defined_blockOperations naming inClass orelse,
      defined_blockOperations naming inClass cleanup]
  | .update .. | .giveBack _ | .expr _ | .pass | .leaveLoop | .nextRound | .importNames _
  | .unsupported _ => rfl
theorem defined_blockOperations (naming : Naming) (inClass : Bool) (block : Block) :
    (blockOperations naming inClass block).flatMap Operation.defined =
      blockFunctionNames block := by
  match block with
  | [] => rfl
  | ⟨_, stmt⟩ :: rest =>
    simp [blockOperations, blockFunctionNames, stmt.defined_operations naming inClass,
      defined_blockOperations naming inClass rest]
theorem defined_handlersOperations (naming : Naming) (inClass : Bool)
    (handlers : List (Handler Block)) :
    (handlersOperations naming inClass handlers).flatMap Operation.defined =
      handlersFunctionNames handlers := by
  match handlers with
  | [] => rfl
  | ⟨_, name, body⟩ :: rest =>
    have named : (handlerOperations name).flatMap Operation.defined = [] := by
      cases name <;> rfl
    simp [handlersOperations, handlersFunctionNames, named,
      defined_blockOperations naming inClass body, defined_handlersOperations naming inClass rest]
end

/-- Behind a definition the frames of the script are as before it. -/
theorem Scope.AtScript.definition {s : Scope} (h : s.AtScript) (naming : Naming) {stmt : Stmt}
    (hd : stmt.isDefinition = true) :
    s.performAll (stmt.operations naming false) =
      s.knowing (s.performAll (stmt.operations naming false)).functions := by
  match stmt, hd with
  | .classDef name bases body, _ =>
    exact h.body .classBody (balanced_blockOperations naming true body)
  | .functionDef name params decorators body, _ =>
    have known : (s.define name).AtScript := ⟨h.mode, h.kind, h.outer⟩
    exact known.body .functionBody ((balanced_paramOperations naming _).append
      (balanced_blockOperations naming false body))

/-- Two definitions of functions of the same names leave scopes that are alike. -/
theorem Scope.AtScript.alike {s : Scope} (h : s.AtScript) (naming : Naming) {d₁ d₂ : Stmt}
    (hd₁ : d₁.isDefinition = true) (hd₂ : d₂.isDefinition = true)
    (hnames : ∀ name, name ∈ d₁.functionNames ↔ name ∈ d₂.functionNames) :
    (s.performAll (d₁.operations naming false)).Alike
      (s.performAll (d₂.operations naming false)) := by
  refine ⟨?_, fun name => ?_⟩
  · have first := h.definition naming hd₁
    have second := h.definition naming hd₂
    rw [first]
    exact second
  · rw [Bool.eq_iff_iff, knows_performAll, knows_performAll, d₁.defined_operations,
      d₂.defined_operations, hnames]

/-! ## Scripts with a definition in them -/

theorem emitBlock_append (site : Site) (block rest : Block) (s : Scope) :
    emitBlock site (block ++ rest) s = do
      let first ← emitBlock site block s
      let others ← emitBlock site rest first.scope
      return ⟨others.scope, first.lines ++ others.lines⟩ := by
  induction block generalizing s with
  | nil => simp [emitBlock, Emitted.nothing]
  | cons head block ih =>
    obtain ⟨n, stmt⟩ := head
    simp only [List.cons_append, emitBlock, ih, bind_assoc, pure_bind, List.append_assoc]

/-- The lines of a script : those in front of one of its statements, its own and those behind it. -/
structure SplitsAt (style : Style) (before : Block) (stmt : Stmt) (after : Block) (text : String)
    (front own back : List Line) : Prop where
  text : text = Line.joinAll (front ++ own ++ back)
  runs : ∃ s₁ s₂ s₃, emitBlock { style } before (.start style.scopeMode) = .ok ⟨s₁, front⟩ ∧
    stmt.emit { style } s₁ = .ok ⟨s₂, own⟩ ∧ emitBlock { style } after s₂ = .ok ⟨s₃, back⟩

theorem exists_splitsAt {style : Style} {before after : Block} {n : Nat} {stmt : Stmt}
    {text : String} (h : emitScript style (before ++ ⟨n, stmt⟩ :: after) = .ok text) :
    ∃ front own back, SplitsAt style before stmt after text front own back := by
  simp only [emitScript, emitBlock_append, emitBlock, bind_eq_ok, pure_eq_ok, locate_eq_ok] at h
  obtain ⟨_, ⟨⟨s₁, front⟩, h₁, _, ⟨⟨s₂, own⟩, h₂, ⟨s₃, back⟩, h₃, rfl⟩, rfl⟩, rfl⟩ := h
  exact ⟨front, own, back, by rw [List.append_assoc], s₁, s₂, s₃, h₁, h₂, h₃⟩

/-- The lines of a definition end with `end`. -/
theorem Stmt.emit_definition {site : Site} {stmt : Stmt} (hd : stmt.isDefinition = true) {s : Scope}
    {r : Emitted} (h : stmt.emit site s = .ok r) : ∃ lines, r.lines = lines ++ [.flush "end"] := by
  match stmt, hd with
  | .classDef name bases body, _ =>
    simp only [Stmt.emit, bind_eq_ok, pure_eq_ok] at h
    obtain ⟨header, -, inner, -, rfl⟩ := h
    exact ⟨_, rfl⟩
  | .functionDef name params decorators body, _ =>
    simp only [Stmt.emit, bind_eq_ok, pure_eq_ok] at h
    obtain ⟨isStatic, -, _, -, guards, -, inner, -, rfl⟩ := h
    exact ⟨_, rfl⟩

/-- Two scripts that differ in one definition, and there define functions of the same names, have
the same lines in front of the definition and the same lines behind the `end` that closes it. -/
theorem definitions_do_not_leak {style : Style} (hmode : style.scopeMode = .lexical)
    {before after : Block} {n₁ n₂ : Nat} {d₁ d₂ : Stmt} (hd₁ : d₁.isDefinition = true)
    (hd₂ : d₂.isDefinition = true)
    (hnames : ∀ name, name ∈ d₁.functionNames ↔ name ∈ d₂.functionNames) {text₁ text₂ : String}
    (h₁ : emitScript style (before ++ ⟨n₁, d₁⟩ :: after) = .ok text₁)
    (h₂ : emitScript style (before ++ ⟨n₂, d₂⟩ :: after) = .ok text₂) :
    ∃ front inner₁ inner₂ back,
      SplitsAt style before d₁ after text₁ front (inner₁ ++ [.flush "end"]) back ∧
      SplitsAt style before d₂ after text₂ front (inner₂ ++ [.flush "end"]) back := by
  obtain ⟨front, own₁, back₁, split₁⟩ := exists_splitsAt h₁
  obtain ⟨front', own₂, back₂, split₂⟩ := exists_splitsAt h₂
  obtain ⟨s, t₁, u₁, hbefore, hstmt₁, hafter₁⟩ := split₁.runs
  obtain ⟨s', t₂, u₂, hbefore', hstmt₂, hafter₂⟩ := split₂.runs
  obtain ⟨rfl, rfl⟩ : s = s' ∧ front = front' := by
    rw [hbefore] at hbefore'
    cases hbefore'
    exact ⟨rfl, rfl⟩
  have atScript : s.AtScript := by
    have behind : s = (Scope.start style.scopeMode).performAll
        (blockOperations style.naming false before) := emitBlock_scope hbefore
    rw [behind, hmode]
    exact Scope.atScript_start.of_keeps ((balanced_blockOperations _ _ before).keeps rfl)
  have alike : t₁.Alike t₂ := by
    have behind₁ : t₁ = s.performAll (d₁.operations style.naming false) := Stmt.emit_scope hstmt₁
    have behind₂ : t₂ = s.performAll (d₂.operations style.naming false) := Stmt.emit_scope hstmt₂
    rw [behind₁, behind₂]
    exact atScript.alike style.naming hd₁ hd₂ hnames
  have same : back₁ = back₂ := alike.lines_eq hafter₁ hafter₂
  obtain ⟨inner₁, hown₁⟩ := d₁.emit_definition hd₁ hstmt₁
  obtain ⟨inner₂, hown₂⟩ := d₂.emit_definition hd₂ hstmt₂
  cases hown₁
  cases hown₂
  cases same
  exact ⟨front, inner₁, inner₂, back₁, split₁, split₂⟩

/-- A class and a function that define `f`, in front of a line that hands `f` over. -/
theorem definitions_do_not_leak_class_function :
    let one : Expr := .constant (.int "1")
    let method : Stmt := .functionDef "f" [{ name := "self" }] [] [⟨2, .assign [.name "x"] one⟩]
    let d₁ : Stmt := .classDef "A" [] [⟨2, method⟩]
    let d₂ : Stmt := .functionDef "f" [{ name := "x" }] [] [⟨2, .giveBack none⟩]
    let after : Block := [⟨4, .assign [.name "x"] one⟩,
      ⟨5, .expr (.call (.name "run") [.name "f", .name "x"] [])⟩]
    let text₁ :=
      "class A\n    def f()\n        var x = 1\n    end\nend\nvar x = 1\nrun(/-> f(), x)\n"
    let text₂ := "def f(x)\n    return\nend\nvar x = 1\nrun(/-> f(), x)\n"
    ∃ front inner₁ inner₂ back,
      SplitsAt {} [] d₁ after text₁ front (inner₁ ++ [.flush "end"]) back ∧
      SplitsAt {} [] d₂ after text₂ front (inner₂ ++ [.flush "end"]) back := by
  intro one method d₁ d₂ after text₁ text₂
  have names : ∀ name, name ∈ d₁.functionNames ↔ name ∈ d₂.functionNames := fun _ => .rfl
  have run₁ : emitScript {} ([] ++ ⟨1, d₁⟩ :: after) = .ok text₁ := rfl
  have run₂ : emitScript {} ([] ++ ⟨1, d₂⟩ :: after) = .ok text₂ := rfl
  exact definitions_do_not_leak rfl rfl rfl names run₁ run₂

end Berrify
