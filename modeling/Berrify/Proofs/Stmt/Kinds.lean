import Berrify.Proofs.Concrete.Shape
import Berrify.Proofs.Stmt.Isolation

/-!
# Kinds that occur

Of the tables of methods the emitter reads the entries for the kinds that receivers have. These are
the kinds of the bindings in the scope, and there they come from values and type hints of the script
(`Scope.KindsIn`, `BlockKindsIn`) : each statement keeps it so, whatever path or frame it binds in.
So two tables that have the same classes, the same special names and the same methods for the kinds
that occur (`Naming.AgreesOn`) lead to the same end, be it a text or a refusal (`emitScript_alike`).
-/

namespace Berrify

/-! ## Tables that agree -/

/-- Two name tables have the same classes and the same special methods. -/
structure Naming.SameNames (n m : Naming) : Prop where
  classes : ∀ name, n.classes.get? name = m.classes.get? name
  special : ∀ name, n.special.get? name = m.special.get? name

namespace Naming.SameNames

variable {n m : Naming}

theorem className (h : n.SameNames m) (name : String) : n.className name = m.className name := by
  rw [Naming.className, Naming.className, h.classes]

theorem isContainer (h : n.SameNames m) (name : String) :
    n.isContainer name = m.isContainer name := by
  rw [Naming.isContainer, Naming.isContainer, NameMap.contains, NameMap.contains, h.classes]

theorem specialName (h : n.SameNames m) (name : String) :
    n.specialName name = m.specialName name := by
  rw [Naming.specialName, Naming.specialName, h.special]

theorem ofHint (h : n.SameNames m) (hint : Expr) :
    Container.ofHint n hint = Container.ofHint m hint := by
  fun_induction Container.ofHint n hint with
  | case1 id => rw [Container.ofHint, h.className]
  | case2 value index ih => rw [ih, Container.ofHint]
  | case3 value attr => rw [Container.ofHint]
  | case4 hint => rw [Container.ofHint] <;> assumption

theorem ofValue (h : n.SameNames m) (e : Expr) : Container.ofValue n e = Container.ofValue m e := by
  unfold Container.ofValue
  split
  · rfl
  · rfl
  · rfl
  · rw [h.isContainer, h.className]
  · rfl

end Naming.SameNames

/-- Two name tables have the same names but for the methods of containers of other kinds than those
in `K`. -/
structure Naming.AgreesOn (K : Container → Prop) (n m : Naming) : Prop where
  names : n.SameNames m
  methods : ∀ kind, K kind → ∀ target ∈ kind.className?, ∀ method,
    n.methodName target method = m.methodName target method

/-! ## Scopes -/

variable {K : Container → Prop}

/-- The paths of a frame are bound to containers of the kinds in `K`. -/
def Frame.KindsIn (K : Container → Prop) (f : Frame) : Prop :=
  ∀ path binding, f.bindings.get? path = some binding → K binding.kind

/-- The paths of all frames are bound to containers of the kinds in `K`. -/
def Scope.KindsIn (K : Container → Prop) (s : Scope) : Prop :=
  ∀ f ∈ s.current :: s.outer, f.KindsIn K

theorem Frame.kindsIn_put {f : Frame} (h : f.KindsIn K) (path : String) {binding : Binding}
    (hb : K binding.kind) : Frame.KindsIn K { f with bindings := f.bindings.put path binding } := by
  intro other found hf
  rw [NameMap.get?_put] at hf
  split at hf
  · cases hf
    exact hb
  · exact h other found hf

theorem Frame.kindsIn_recordKind {f : Frame} (h : f.KindsIn K) (path : String) {kind : Container}
    (hk : K kind) : (f.recordKind path kind).KindsIn K :=
  Frame.kindsIn_put h path hk

namespace Scope.KindsIn

variable {s : Scope} {kind : Container}

theorem start (mode : ScopeMode) : (Scope.start mode).KindsIn K := by
  intro f hf path binding hb
  obtain rfl := List.mem_singleton.1 hf
  cases hb

theorem kindOf (h : s.KindsIn K) (unknown : K .unknown) (path : String) : K (s.kindOf path) := by
  unfold Scope.kindOf Scope.lookup?
  cases hl : (s.current :: s.outer).findSome? (·.bindings.get? path) with
  | none => exact unknown
  | some binding =>
    obtain ⟨f, hf, hb⟩ := List.exists_of_findSome?_eq_some hl
    exact h f hf path binding hb

theorem push (h : s.KindsIn K) (frame : FrameKind) : (s.push frame).KindsIn K := by
  unfold Scope.push
  split
  · refine List.forall_mem_cons.2 ⟨fun path binding hb => ?_, h⟩
    cases hb
  · exact h

theorem pop (h : s.KindsIn K) : s.pop.KindsIn K := by
  unfold Scope.pop
  split
  · rename_i frame rest _ houter
    refine fun f hf => h f (List.mem_cons_of_mem _ ?_)
    rw [houter]
    exact hf
  · exact h

theorem define (h : s.KindsIn K) (name : String) : (s.define name).KindsIn K :=
  h

theorem declare (h : s.KindsIn K) (name : String) (hk : K kind) :
    (s.declare name kind).KindsIn K := by
  obtain ⟨hcurrent, houter⟩ := List.forall_mem_cons.1 h
  exact List.forall_mem_cons.2 ⟨Frame.kindsIn_put hcurrent name hk, houter⟩

theorem recordHere (h : s.KindsIn K) (path : String) (hk : K kind) :
    (s.recordHere path kind).KindsIn K := by
  obtain ⟨hcurrent, houter⟩ := List.forall_mem_cons.1 h
  exact List.forall_mem_cons.2 ⟨Frame.kindsIn_recordKind hcurrent path hk, houter⟩

theorem recordInClass? {path : String} {frames recorded : List Frame} (hk : K kind)
    (h : ∀ f ∈ frames, f.KindsIn K)
    (hr : Scope.recordInClass? path kind frames = some recorded) :
    ∀ f ∈ recorded, f.KindsIn K := by
  induction frames generalizing recorded with
  | nil => cases hr
  | cons f rest ih =>
    obtain ⟨hf, hrest⟩ := List.forall_mem_cons.1 h
    rw [Scope.recordInClass?] at hr
    split at hr
    · cases hr
      exact List.forall_mem_cons.2 ⟨Frame.kindsIn_recordKind hf path hk, hrest⟩
    · obtain ⟨later, hl, rfl⟩ := Option.map_eq_some_iff.1 hr
      exact List.forall_mem_cons.2 ⟨hf, ih hrest hl⟩

theorem recordKind (h : s.KindsIn K) (path : String) (hk : K kind) :
    (s.recordKind path kind).KindsIn K := by
  unfold Scope.recordKind Scope.recordField
  split
  · split
    · exact h.recordHere path hk
    · split
      · rename_i outer hr
        obtain ⟨hcurrent, houter⟩ := List.forall_mem_cons.1 h
        exact List.forall_mem_cons.2 ⟨hcurrent, recordInClass? hk houter hr⟩
      · exact h.recordHere path hk
  · exact h.recordHere path hk

theorem assign (h : s.KindsIn K) (target : Expr) (hk : K kind) :
    (s.assign target kind).1.KindsIn K := by
  unfold Scope.assign
  split
  · exact h.declare _ hk
  · split
    · exact h.recordKind _ hk
    · exact h
  · exact h

/-- A `global` line copies kinds from around. -/
theorem declareGlobals (h : s.KindsIn K) (unknown : K .unknown) (names : List String) :
    (declareGlobals names s).KindsIn K := by
  unfold Berrify.declareGlobals
  induction names generalizing s with
  | nil => exact h
  | cons name names ih =>
    rw [List.foldl_cons]
    exact ih (h.declare name (h.kindOf unknown name))

end Scope.KindsIn

/-! ## Statements -/

/-- An expression and everything in it makes containers of the kinds in `K`. -/
def Expr.KindsIn (K : Container → Prop) (naming : Naming) (e : Expr) : Prop :=
  Everywhere (fun part => K (.ofValue naming part)) e

namespace Stmt

/-- The expressions of a statement that may be written, without those of the statements in it. Type
hints and caught classes never are. -/
def values : Stmt → List Expr
  | .classDef _ bases _ => bases
  | .functionDef _ params _ _ => params.filterMap (·.fallback)
  | .assign targets value => targets ++ [value]
  | .declare target _ value => target :: value.toList
  | .update target _ value => [target, value]
  | .branch test _ _ => [test]
  | .forEach target iter _ _ => [target, iter]
  | .whileLoop test _ _ => [test]
  | .giveBack value => value.toList
  | .expr value => [value]
  | _ => []

/-- The type hints of a statement. -/
def hints : Stmt → List Expr
  | .functionDef _ params _ _ => params.filterMap (·.hint)
  | .declare _ hint _ => [hint]
  | _ => []

/-- The values and the hints of a statement are of the kinds in `K`. -/
structure KindsIn (K : Container → Prop) (naming : Naming) (stmt : Stmt) : Prop where
  values : ∀ e ∈ stmt.values, e.KindsIn K naming
  hints : ∀ hint ∈ stmt.hints, K (.ofHint naming hint)

end Stmt

/-- The values and the hints of all statements in a block are of the kinds in `K`. -/
def BlockKindsIn (K : Container → Prop) (naming : Naming) (block : Block) : Prop :=
  ∀ stmt, Nested Stmt.blocks stmt block → stmt.node.KindsIn K naming

theorem blockKindsIn_cons {naming : Naming} {stmt : Located Stmt} {rest : Block} :
    BlockKindsIn K naming (stmt :: rest) ↔
      (stmt.node.KindsIn K naming ∧ ∀ block ∈ stmt.node.blocks, BlockKindsIn K naming block) ∧
        BlockKindsIn K naming rest :=
  forall_nested_cons

/-! ## Sites -/

/-- Two sites in bodies of the same kind, with styles that may differ in the scope mode and in the
methods of containers of other kinds than those in `K`. -/
structure Site.Alike (K : Container → Prop) (site site' : Site) : Prop where
  unknown : K .unknown
  naming : site.style.naming.AgreesOn K site'.style.naming
  members : site.style.declareMembers = site'.style.declareMembers
  body : site.body = site'.body

namespace Site.Alike

variable {site site' : Site}

theorem within (h : site.Alike K site') (kind : FrameKind) :
    (site.within kind).Alike K (site'.within kind) :=
  ⟨h.unknown, h.naming, h.members, rfl⟩

theorem memberLine (h : site.Alike K site') (body : Block) :
    memberLine site.style body = memberLine site'.style body := by
  rw [Berrify.memberLine, Berrify.memberLine, h.members]

/-- Methods of receivers of the kinds that occur have the same names. -/
theorem agreesOn (h : site.Alike K site') {s : Scope} (hs : s.KindsIn K) :
    (site.view s).AgreesOn (fun e => K (.ofValue site.style.naming e)) (site'.view s) := by
  refine ⟨fun id => ?_, fun receiver hr method => ?_, fun _ => rfl⟩
  · unfold View.calleeName Site.view
    rw [h.naming.names.isContainer, h.naming.names.className]
  · have same : (site.view s).receiverKind receiver = (site'.view s).receiverKind receiver := by
      unfold View.receiverKind
      split
      · rfl
      · exact h.naming.names.ofValue receiver
    have occurs : K ((site.view s).receiverKind receiver) := by
      unfold View.receiverKind
      split
      · exact hs.kindOf h.unknown _
      · exact hr
    rw [View.methodName, View.methodName, ← same]
    cases hc : ((site.view s).receiverKind receiver).className? with
    | none => rfl
    | some target => exact h.naming.methods _ occurs target hc method

end Site.Alike

/-! ## Runs that come to the same end -/

/-- Two runs come to the same end, and the kinds in the scope there are in `K`. -/
structure AlikeRuns (K : Container → Prop) (x y : Except Refusal Emitted) : Prop where
  same : x = y
  kinds : ∀ r, x = .ok r → r.scope.KindsIn K

namespace AlikeRuns

variable {x y : Except Refusal Emitted}

theorem ok {r : Emitted} (h : r.scope.KindsIn K) : AlikeRuns K (pure r) (pure r) :=
  ⟨rfl, fun _ hr => pure_eq_ok.1 hr ▸ h⟩

theorem refused (cause : Cause) : AlikeRuns K (refuse cause) (refuse cause) :=
  ⟨rfl, fun _ hr => (refuse_eq_ok.1 hr).elim⟩

theorem bind (h : AlikeRuns K x y) {f g : Emitted → Except Refusal Emitted}
    (hf : ∀ r, r.scope.KindsIn K → AlikeRuns K (f r) (g r)) : AlikeRuns K (x >>= f) (y >>= g) := by
  obtain ⟨rfl, hx⟩ := h
  cases x with
  | error refusal => exact ⟨rfl, fun _ hr => nomatch hr⟩
  | ok r => exact hf r (hx r rfl)

/-- A step that leaves the scope alone and is the same in both runs. -/
theorem step {α : Type} {a b : Except Refusal α} (h : a = b) {f g : α → Except Refusal Emitted}
    (hf : ∀ value, AlikeRuns K (f value) (g value)) : AlikeRuns K (a >>= f) (b >>= g) := by
  subst h
  cases a with
  | error refusal => exact ⟨rfl, fun _ hr => nomatch hr⟩
  | ok value => exact hf value

/-- A text that both runs write, or refuse with the same cause. -/
theorem text {α : Type} {a b : Except Cause α} (h : a = b) {f g : α → Except Refusal Emitted}
    (hf : ∀ text, AlikeRuns K (f text) (g text)) :
    AlikeRuns K (orRefuse a >>= f) (orRefuse b >>= g) :=
  step (congrArg orRefuse h) hf

theorem locate (h : AlikeRuns K x y) (line : Nat) :
    AlikeRuns K (Berrify.locate line x) (Berrify.locate line y) :=
  ⟨by rw [h.same], fun r hr => h.kinds r (locate_eq_ok.1 hr)⟩

end AlikeRuns

variable {site site' : Site} {s : Scope}

theorem renderTarget_alike (h : site.Alike K site') (hs : s.KindsIn K) {target : Expr}
    (ht : target.KindsIn K site.style.naming) :
    renderTarget (site.view s) target = renderTarget (site'.view s) target :=
  renderTarget_congr (Expr.write_eq_of_everywhere (h.agreesOn hs) ht) fun _ hm =>
    Expr.write_eq_of_everywhere (h.agreesOn hs) (ht.inside hm)

theorem render_alike (h : site.Alike K site') (hs : s.KindsIn K) {e : Expr}
    (he : e.KindsIn K site.style.naming) : e.render (site.view s) = e.render (site'.view s) :=
  Expr.write_eq_of_everywhere (h.agreesOn hs) he .whole

theorem renderCondition_alike (h : site.Alike K site') (hs : s.KindsIn K) {e : Expr}
    (he : e.KindsIn K site.style.naming) :
    e.renderCondition (site.view s) = e.renderCondition (site'.view s) := by
  rw [Expr.renderCondition, Expr.renderCondition, render_alike h hs he]

theorem emitAssignment_alike (h : site.Alike K site') (hs : s.KindsIn K) {target : Expr}
    (ht : target.KindsIn K site.style.naming) (value : String) {kind : Container} (hk : K kind) :
    AlikeRuns K (emitAssignment site s target value kind)
      (emitAssignment site' s target value kind) :=
  .text (renderTarget_alike h hs ht) fun _ => .ok (hs.assign target hk)

theorem emitAssignments_alike (h : site.Alike K site') (value : String) {kind : Container}
    (hk : K kind) :
    ∀ {targets : List Expr} {s : Scope}, s.KindsIn K →
      (∀ target ∈ targets, target.KindsIn K site.style.naming) →
      AlikeRuns K (emitAssignments site value kind targets s)
        (emitAssignments site' value kind targets s)
  | [], _, hs, _ => .ok hs
  | target :: rest, s, hs, ht => by
    obtain ⟨hfirst, hrest⟩ := List.forall_mem_cons.1 ht
    rw [emitAssignments, emitAssignments]
    refine (emitAssignment_alike h hs hfirst value hk).bind fun first hfirst => ?_
    exact (emitAssignments_alike h value hk hfirst hrest).bind fun _ hothers => .ok hothers

theorem emitBareDeclaration_alike (h : site.Alike K site') (hs : s.KindsIn K) {target : Expr}
    (ht : target.KindsIn K site.style.naming) {kind : Container} (hk : K kind) :
    AlikeRuns K (emitBareDeclaration site s target kind)
      (emitBareDeclaration site' s target kind) := by
  refine .text (renderTarget_alike h hs ht) fun text => ?_
  split
  · split
    · exact .ok hs
    · exact .ok (hs.declare _ hk)
  · split
    · exact .ok (hs.recordKind _ hk)
    · exact .ok hs
  · exact .ok hs

theorem declaredKind_alike (h : site.Alike K site') {hint value : Expr}
    (hh : K (.ofHint site.style.naming hint)) (hv : value.KindsIn K site.style.naming) :
    declaredKind site.style.naming hint value = declaredKind site'.style.naming hint value ∧
      K (declaredKind site.style.naming hint value) := by
  unfold declaredKind
  rw [← h.naming.names.ofHint, ← h.naming.names.ofValue]
  split
  · exact ⟨rfl, hv.here⟩
  · exact ⟨rfl, hh⟩

theorem emitDeclaration_alike (h : site.Alike K site') (hs : s.KindsIn K) {target hint : Expr}
    (ht : target.KindsIn K site.style.naming) (hh : K (.ofHint site.style.naming hint))
    {value : Option Expr} (hv : ∀ e ∈ value, e.KindsIn K site.style.naming) :
    AlikeRuns K (emitDeclaration site s target hint value)
      (emitDeclaration site' s target hint value) := by
  cases value with
  | none =>
    rw [emitDeclaration, emitDeclaration, ← h.naming.names.ofHint]
    exact emitBareDeclaration_alike h hs ht hh
  | some value =>
    have hvalue := hv value rfl
    obtain ⟨same, hk⟩ := declaredKind_alike h hh hvalue
    rw [emitDeclaration, emitDeclaration, ← same]
    exact .text (render_alike h hs hvalue) fun text => emitAssignment_alike h hs ht text hk

theorem emitUpdate_alike (h : site.Alike K site') (hs : s.KindsIn K) {target value : Expr}
    (ht : target.KindsIn K site.style.naming) (op : BinaryOp)
    (hv : value.KindsIn K site.style.naming) :
    AlikeRuns K (emitUpdate site s target op value) (emitUpdate site' s target op value) := by
  refine .text (renderTarget_alike h hs ht) fun text => ?_
  split
  · exact .refused _
  · exact .text (render_alike h hs hv) fun _ => .ok hs

theorem declareParams_alike (h : site.Alike K site') {params : List Param}
    (hp : ∀ param ∈ params, ∀ hint ∈ param.hint, K (.ofHint site.style.naming hint)) {s : Scope}
    (hs : s.KindsIn K) :
    declareParams site.style.naming params s = declareParams site'.style.naming params s ∧
      (declareParams site.style.naming params s).KindsIn K := by
  unfold declareParams
  induction params generalizing s with
  | nil => simpa using hs
  | cons param params ih =>
    obtain ⟨hparam, hparams⟩ := List.forall_mem_cons.1 hp
    have here : param.container site.style.naming = param.container site'.style.naming ∧
        K (param.container site.style.naming) := by
      cases hh : param.hint with
      | none => simpa only [Param.container, hh, true_and] using h.unknown
      | some hint =>
        simpa only [Param.container, hh, ← h.naming.names.ofHint, true_and] using hparam hint hh
    rw [List.foldl_cons, List.foldl_cons, ← here.1]
    exact ih hparams (hs.declare param.name here.2)

theorem emitGuards_alike (h : site.Alike K site') (hs : s.KindsIn K) {params : List Param}
    (hp : ∀ param ∈ params, ∀ e ∈ param.fallback, e.KindsIn K site.style.naming) :
    emitGuards (site.view s) params = emitGuards (site'.view s) params := by
  induction params with
  | nil => rfl
  | cons param params ih =>
    obtain ⟨hparam, hparams⟩ := List.forall_mem_cons.1 hp
    rw [emitGuards, emitGuards, ih hparams]
    cases hf : param.fallback with
    | none => rfl
    | some value => simp only [render_alike h hs (hparam value hf)]

theorem ownParams_subset (isMethod : Bool) (params : List Param) :
    ownParams isMethod params ⊆ params := by
  unfold ownParams
  split
  · exact List.drop_subset 1 params
  · exact List.Subset.refl params

mutual
/-- Two runs over a statement come to the same end. -/
theorem Stmt.emit_alike {site site' : Site} (h : site.Alike K site') (stmt : Stmt) {s : Scope}
    (hs : s.KindsIn K) (hstmt : stmt.KindsIn K site.style.naming)
    (hblocks : ∀ block ∈ stmt.blocks, BlockKindsIn K site.style.naming block) :
    AlikeRuns K (stmt.emit site s) (stmt.emit site' s) := by
  match stmt with
  | .classDef name bases body =>
    rw [Stmt.emit, Stmt.emit, h.memberLine]
    refine .text (classHeader_congr name fun base hm => ?_) fun header => ?_
    · exact Expr.write_eq_of_everywhere (h.agreesOn hs) (hstmt.values base hm)
    · exact (emitBlock_alike (h.within .classBody) body (hs.push _)
        (hblocks body (by simp [Stmt.blocks]))).bind fun _ hinner => .ok hinner.pop
  | .functionDef name params decorators body =>
    simp only [Stmt.emit, h.body, h.naming.names.specialName]
    refine .text rfl fun isStatic => .text rfl fun _ => ?_
    have own := ownParams_subset (site'.body == .classBody && !isStatic) params
    obtain ⟨declared, hstart⟩ := declareParams_alike h
      (fun param hm hint hh => hstmt.hints hint (List.mem_filterMap.2 ⟨param, own hm, hh⟩))
      ((hs.define name).push .functionBody)
    rw [← declared]
    refine .text (emitGuards_alike h hstart fun param hm e he =>
      hstmt.values e (List.mem_filterMap.2 ⟨param, own hm, he⟩)) fun guards => ?_
    exact (emitBlock_alike (h.within .functionBody) body hstart
      (hblocks body (by simp [Stmt.blocks]))).bind fun _ hinner => .ok hinner.pop
  | .assign targets value =>
    have hvalue := hstmt.values value (by simp [Stmt.values])
    rw [Stmt.emit, Stmt.emit, ← h.naming.names.ofValue]
    exact .text (render_alike h hs hvalue) fun text => emitAssignments_alike h text hvalue.here hs
      fun target hm => hstmt.values target (by simp [Stmt.values, hm])
  | .declare target hint value =>
    rw [Stmt.emit, Stmt.emit]
    exact emitDeclaration_alike h hs (hstmt.values target (by simp [Stmt.values]))
      (hstmt.hints hint (by simp [Stmt.hints]))
      fun e he => hstmt.values e (by simp [Stmt.values, Option.mem_def.1 he])
  | .update target op value =>
    rw [Stmt.emit, Stmt.emit]
    exact emitUpdate_alike h hs (hstmt.values target (by simp [Stmt.values])) op
      (hstmt.values value (by simp [Stmt.values]))
  | .branch test body orelse =>
    rw [Stmt.emit, Stmt.emit]
    refine .text (renderCondition_alike h hs (hstmt.values test (by simp [Stmt.values])))
      fun text => ?_
    refine (emitBlock_alike h body hs (hblocks body (by simp [Stmt.blocks]))).bind
      fun first hfirst => ?_
    exact (emitOtherwise_alike h orelse hfirst (hblocks orelse (by simp [Stmt.blocks]))).bind
      fun _ hothers => .ok hothers
  | .forEach target iter body orelse =>
    have hiter := hstmt.values iter (by simp [Stmt.values])
    rw [Stmt.emit, Stmt.emit]
    refine .text (loopHeader_congr target orelse fun part hm inner hi =>
      Expr.write_eq_of_everywhere (h.agreesOn hs) ((hiter.inside hm).inside hi)) fun header => ?_
    have inside := hs.declare header.1 h.unknown
    exact (emitBlock_alike h body inside (hblocks body (by simp [Stmt.blocks]))).bind
      fun _ hinner => .ok hinner
  | .whileLoop test body orelse =>
    rw [Stmt.emit, Stmt.emit]
    refine .text (renderCondition_alike h hs (hstmt.values test (by simp [Stmt.values])))
      fun text => ?_
    refine (emitBlock_alike h body hs (hblocks body (by simp [Stmt.blocks]))).bind
      fun first hfirst => ?_
    exact (emitBlock_alike h orelse hfirst (hblocks orelse (by simp [Stmt.blocks]))).bind
      fun _ hothers => .ok hothers
  | .attempt _ _ (_ :: _) _ =>
    rw [Stmt.emit, Stmt.emit]
    exact .refused .attemptElse
  | .attempt body handlers [] cleanup =>
    simp only [Stmt.emit, List.isEmpty_nil, if_true]
    refine (emitBlock_alike h body hs (hblocks body (by simp [Stmt.blocks]))).bind
      fun first hfirst => ?_
    have hhandlers : ∀ handler ∈ handlers, BlockKindsIn K site.style.naming handler.body :=
      fun handler hm => hblocks handler.body
        (List.mem_append_left _ (List.mem_cons_of_mem body (List.mem_map_of_mem hm)))
    refine (emitHandlers_alike h handlers hfirst hhandlers).bind fun caught hcaught => ?_
    exact (emitBlock_alike h cleanup hcaught (hblocks cleanup (by simp [Stmt.blocks]))).bind
      fun _ hlast => .ok hlast
  | .giveBack none =>
    rw [Stmt.emit, Stmt.emit]
    exact .ok hs
  | .giveBack (some value) =>
    rw [Stmt.emit, Stmt.emit]
    exact .text (render_alike h hs (hstmt.values value (by simp [Stmt.values]))) fun _ => .ok hs
  | .expr value =>
    cases hd : isDocText value with
    | true =>
      match value, hd with
      | .constant (.str _), _ =>
        rw [Stmt.emit, Stmt.emit]
        exact .ok hs
    | false =>
      have written : AlikeRuns K
          (do return Emitted.line s (← orRefuse (value.render (site.view s))))
          (do return Emitted.line s (← orRefuse (value.render (site'.view s)))) :=
        .text (render_alike h hs (hstmt.values value (by simp [Stmt.values]))) fun _ => .ok hs
      rw [Stmt.emit, Stmt.emit]
      · exact written
      · rintro text rfl
        cases hd
      · rintro text rfl
        cases hd
  | .importNames names =>
    rw [Stmt.emit, Stmt.emit]
    exact .text rfl fun _ => .ok hs
  | .globalNames names =>
    rw [Stmt.emit, Stmt.emit]
    exact .ok (hs.declareGlobals h.unknown names)
  | .pass | .leaveLoop | .nextRound =>
    rw [Stmt.emit, Stmt.emit]
    exact .ok hs
  | .unsupported kind =>
    rw [Stmt.emit, Stmt.emit]
    exact .refused _
termination_by (sizeOf stmt, 0)
theorem emitBlock_alike {site site' : Site} (h : site.Alike K site') (b : Block) {s : Scope}
    (hs : s.KindsIn K) (hb : BlockKindsIn K site.style.naming b) :
    AlikeRuns K (emitBlock site b s) (emitBlock site' b s) := by
  match b with
  | [] =>
    rw [emitBlock, emitBlock]
    exact .ok hs
  | ⟨line, stmt⟩ :: rest =>
    obtain ⟨⟨hstmt, hblocks⟩, hrest⟩ := blockKindsIn_cons.1 hb
    rw [emitBlock, emitBlock]
    refine ((stmt.emit_alike h hs hstmt hblocks).locate line).bind fun first hfirst => ?_
    exact (emitBlock_alike h rest hfirst hrest).bind fun _ hothers => .ok hothers
termination_by (sizeOf b, 0)
theorem emitOtherwise_alike {site site' : Site} (h : site.Alike K site') (b : Block) {s : Scope}
    (hs : s.KindsIn K) (hb : BlockKindsIn K site.style.naming b) :
    AlikeRuns K (emitOtherwise site b s) (emitOtherwise site' b s) := by
  cases he : isElif b with
  | true =>
    obtain ⟨line, test, body, orelse, heq⟩ := exists_of_isElif he
    have smaller : sizeOf body < sizeOf b ∧ sizeOf orelse < sizeOf b := by
      rw [heq]
      simp
      omega
    obtain ⟨⟨hstmt, hblocks⟩, -⟩ := blockKindsIn_cons.1 (heq ▸ hb)
    have same := renderCondition_alike h hs (hstmt.values test (by simp [Stmt.values]))
    rw [heq, emitOtherwise, emitOtherwise]
    refine .step (congrArg (fun x => locate line (orRefuse x)) same) fun text => ?_
    refine (emitBlock_alike h body hs (hblocks body (by simp [Stmt.blocks]))).bind
      fun first hfirst => ?_
    exact (emitOtherwise_alike h orelse hfirst (hblocks orelse (by simp [Stmt.blocks]))).bind
      fun _ hothers => .ok hothers
  | false =>
    by_cases hne : b = []
    · subst hne
      rw [emitOtherwise, emitOtherwise]
      exact .ok hs
    · rw [emitOtherwise_of_not_isElif he hne, emitOtherwise_of_not_isElif he hne]
      exact (emitBlock_alike h b hs hb).bind fun _ hinner => .ok hinner
termination_by (sizeOf b, 1)
decreasing_by
  · exact .right _ Nat.zero_lt_one
  · exact .left _ _ smaller.1
  · exact .left _ _ smaller.2
theorem emitHandlers_alike {site site' : Site} (h : site.Alike K site')
    (handlers : List (Handler Block)) {s : Scope} (hs : s.KindsIn K)
    (hh : ∀ handler ∈ handlers, BlockKindsIn K site.style.naming handler.body) :
    AlikeRuns K (emitHandlers site handlers s) (emitHandlers site' handlers s) := by
  match handlers with
  | [] =>
    rw [emitHandlers, emitHandlers]
    exact .ok hs
  | ⟨caught, name, body⟩ :: rest =>
    obtain ⟨hbody, hrest⟩ := List.forall_mem_cons.1 hh
    have hinside : (handlerHeader s name).scope.KindsIn K := by
      cases name with
      | none => exact hs
      | some name => exact hs.declare name h.unknown
    rw [emitHandlers, emitHandlers]
    refine (emitBlock_alike h body hinside hbody).bind fun first hfirst => ?_
    exact (emitHandlers_alike h rest hfirst hrest).bind fun _ hothers => .ok hothers
termination_by (sizeOf handlers, 0)
end

/-! ## Scripts -/

/-- With tables that agree on the kinds that occur in a script, it is emitted alike, or refused
alike. -/
theorem emitScript_alike {naming naming' : Naming} (unknown : K .unknown)
    (h : naming.AgreesOn K naming') {script : Block} (hscript : BlockKindsIn K naming script)
    (style : Style) :
    emitScript { style with naming } script =
      emitScript { style with naming := naming' } script := by
  have sites : Site.Alike K ⟨{ style with naming }, .script⟩
      ⟨{ style with naming := naming' }, .script⟩ :=
    ⟨unknown, h, rfl, rfl⟩
  have runs := emitBlock_alike sites script (.start style.scopeMode) hscript
  rw [emitScript, emitScript]
  exact congrArg (· >>= fun r => pure (Line.joinAll r.lines)) runs.same

end Berrify
