import Berrify.Proofs.Stmt.Declarations
import Berrify.Proofs.Stmt.Operations
import Berrify.Proofs.Stmt.Verdict

/-!
# One scope for the whole script

With one frame for the whole script (`ScopeMode.flat`) a name that was introduced anywhere stays
declared, so an operation declares a name exactly if no operation before it introduces the name
(`declaresHere_performAll_flat`). With one frame for each body, the frames that are open at a point
declare no more than the single frame does there (`Covers`), since a frame is empty when it is
opened and every operation fills both. So what is declared with one frame is declared with many
(`flat_declares_less`), and both runs are compared operation by operation.
-/

namespace Berrify

/-! ## Names that operations introduce -/

namespace Operation

/-- Whether an operation is an assignment to a bare name, or a declaration of one. -/
def binds (x : String) : Operation → Bool
  | assign (.name id) _ => id == x
  | annotate (.name id) _ => id == x
  | _ => false

/-- Whether an operation introduces a name in its body : as a parameter, the variable of a loop, the
name of a handler or a `global` name, or by an assignment or declaration. -/
def introduces (x : String) : Operation → Bool
  | parameter name _ => name == x
  | introduce name => name == x
  | share names => names.contains x
  | assign (.name id) _ => id == x
  | annotate (.name id) _ => id == x
  | _ => false

theorem introduces_of_binds {x : String} {op : Operation} (h : op.binds x = true) :
    op.introduces x = true := by
  unfold binds at h
  split at h
  · exact h
  · exact h
  · cases h

/-- An operation writes a `var` line for a name if it binds the name where it is not declared. -/
theorem declares_mem_marks {x : String} {op : Operation} {s : Scope} :
    Role.declares x ∈ op.marks s ↔ op.binds x = true ∧ s.declaresHere x = false := by
  have other (role : Role) (h : ∀ y, role ≠ .declares y) : Role.declares x ∉ [role] := by
    rw [List.mem_singleton]
    exact fun heq => h x heq.symm
  cases op with
  | assign target kind =>
    cases hb : isBareName target with
    | false =>
      have plain : Role.declares x ∉ (Operation.assign target kind).marks s := by
        rw [marks, (s.assign_of_not_isBareName kind hb).1]
        exact other _ (by cases target <;> simp [assignmentRole])
      have unbound : (Operation.assign target kind).binds x = false := by
        cases target <;> first | rfl | cases hb
      simp [plain, unbound]
    | true =>
      obtain ⟨id, rfl⟩ := exists_of_isBareName hb
      cases hd : s.declaresHere id with
      | true =>
        have plain : Role.declares x ∉ (Operation.assign (.name id) kind).marks s := by
          simp [marks, Scope.assign, hd, assignmentRole]
        have declared : ¬((Operation.assign (.name id) kind).binds x = true ∧
            s.declaresHere x = false) := by
          rintro ⟨hx, hnot⟩
          rw [← beq_iff_eq.1 hx, hd] at hnot
          cases hnot
        exact iff_of_false plain declared
      | false =>
        have mark : (Operation.assign (.name id) kind).marks s = [.declares id] := by
          simp [marks, Scope.assign, hd, assignmentRole]
        rw [mark, List.mem_singleton, Role.declares.injEq, binds, beq_iff_eq]
        constructor
        · rintro rfl
          exact ⟨rfl, hd⟩
        · rintro ⟨rfl, -⟩
          rfl
  | annotate target kind =>
    cases hb : isBareName target with
    | false =>
      have silent : (Operation.annotate target kind).marks s = [] := by
        cases target <;> first | rfl | cases hb
      have unbound : (Operation.annotate target kind).binds x = false := by
        cases target <;> first | rfl | cases hb
      simp [silent, unbound]
    | true =>
      obtain ⟨id, rfl⟩ := exists_of_isBareName hb
      rw [marks, binds, beq_iff_eq]
      constructor
      · intro h
        split at h
        · cases h
        · rw [List.mem_singleton, Role.declares.injEq] at h
          subst h
          exact ⟨rfl, Bool.eq_false_iff.2 ‹_›⟩
      · rintro ⟨rfl, hd⟩
        simp [hd]
  | _ => simp [marks, binds]

end Operation

namespace Scope

/-- Within a body an operation declares the names that it introduces, and leaves the declarations of
the bodies around alone. -/
theorem perform_within (s : Scope) {op : Operation} (h : op.isFraming = false) :
    s.Within (s.perform op) ∧
      ∀ x, (s.perform op).declaresHere x = (op.introduces x || s.declaresHere x) := by
  have declared (name : String) (kind : Container) : s.Within (s.declare name kind) ∧
      ∀ x, (s.declare name kind).declaresHere x = (name == x || s.declaresHere x) := by
    refine ⟨s.within_declare name kind, fun x => ?_⟩
    rw [declaresHere_declare, Bool.beq_comm]
  cases op with
  | push kind => cases h
  | pop => cases h
  | define name => exact ⟨⟨rfl, agrees_refl s.outer⟩, fun _ => rfl⟩
  | parameter name kind => exact declared name kind
  | introduce name => exact declared name .unknown
  | share names => exact declareGlobals_within names s
  | assign target kind =>
    cases hb : isBareName target with
    | true =>
      obtain ⟨id, rfl⟩ := exists_of_isBareName hb
      exact declared id kind
    | false =>
      obtain ⟨-, hwithin, hsame⟩ := s.assign_of_not_isBareName kind hb
      refine ⟨hwithin, fun x => (hsame x).trans ?_⟩
      cases target <;> first | rfl | cases hb
  | annotate target kind =>
    cases hb : isBareName target with
    | true =>
      obtain ⟨id, rfl⟩ := exists_of_isBareName hb
      change s.Within (if s.declaresHere id then s else s.declare id kind) ∧
        ∀ x, (if s.declaresHere id then s else s.declare id kind).declaresHere x =
          (id == x || s.declaresHere x)
      split
      · rename_i hd
        refine ⟨.refl s, fun x => ?_⟩
        cases hx : id == x with
        | true => rw [← beq_iff_eq.1 hx, hd, Bool.or_true]
        | false => rw [Bool.false_or]
      · exact declared id kind
    | false =>
      obtain ⟨-, hwithin, hsame⟩ := s.assign_of_not_isBareName kind hb
      have same : s.annotate target kind = (s.assign target kind).1 := by
        cases target <;> first | rfl | cases hb
      rw [perform, same]
      refine ⟨hwithin, fun x => (hsame x).trans ?_⟩
      cases target <;> first | rfl | cases hb

/-! ## One frame -/

/-- With one frame, an operation declares the names that it introduces and keeps those declared. -/
theorem perform_flat {s : Scope} (hmode : s.mode = .flat) (op : Operation) :
    (s.perform op).mode = .flat ∧
      ∀ x, (s.perform op).declaresHere x = (op.introduces x || s.declaresHere x) := by
  cases hf : op.isFraming with
  | false =>
    obtain ⟨hwithin, hdeclared⟩ := s.perform_within hf
    exact ⟨hwithin.mode.trans hmode, hdeclared⟩
  | true =>
    have same : s.perform op = s := by
      cases op with
      | push kind => rw [perform, push, hmode]
      | pop => rw [perform, pop, hmode]
      | _ => cases hf
    rw [same]
    refine ⟨hmode, fun x => ?_⟩
    cases op <;> first | rfl | cases hf

/-- With one frame, a name is declared behind operations if it was before or one introduces it. -/
theorem declaresHere_performAll_flat {s : Scope} (hmode : s.mode = .flat) (ops : List Operation)
    (x : String) :
    (s.performAll ops).declaresHere x = (ops.any (·.introduces x) || s.declaresHere x) := by
  induction ops generalizing s with
  | nil => rfl
  | cons op ops ih =>
    obtain ⟨hmode', hdeclared⟩ := perform_flat hmode op
    rw [performAll_cons, ih hmode', hdeclared, List.any_cons, Bool.or_left_comm, Bool.or_assoc]

/-- With one frame no name is declared twice, and none that is declared already. -/
theorem countP_marks_flat {s : Scope} (hmode : s.mode = .flat) (ops : List Operation) (x : String) :
    (s.marks ops).countP (·.isDeclarationOf x) ≤ if s.declaresHere x then 0 else 1 := by
  induction ops generalizing s with
  | nil => simp [marks]
  | cons op ops ih =>
    obtain ⟨hmode', hdeclared⟩ := perform_flat hmode op
    have rest := ih hmode'
    rw [marks, List.countP_append]
    by_cases hm : Role.declares x ∈ op.marks s
    · obtain ⟨hbinds, hnot⟩ := Operation.declares_mem_marks.1 hm
      rw [hdeclared, Operation.introduces_of_binds hbinds, Bool.true_or, if_pos rfl] at rest
      have first : (op.marks s).countP (·.isDeclarationOf x) ≤ 1 := by
        refine List.countP_le_length.trans ?_
        unfold Operation.marks
        repeat' split
        all_goals simp
      rw [hnot, if_neg Bool.false_ne_true]
      omega
    · have first : (op.marks s).countP (·.isDeclarationOf x) = 0 := by
        refine List.countP_eq_zero.2 fun role hr hdecl => hm ?_
        cases role with
        | declares y => rwa [← beq_iff_eq.1 hdecl]
        | _ => cases hdecl
      have behind : s.declaresHere x = true → (s.perform op).declaresHere x = true := by
        intro hx
        rw [hdeclared, hx, Bool.or_true]
      split
      · rename_i hx
        rw [behind hx, if_pos rfl] at rest
        omega
      · split at rest <;> omega

/-! ## One frame and many -/

/-- The single frame of one scope declares all that the open frames of another do. -/
structure Covers (flat lexical : Scope) : Prop where
  flat_mode : flat.mode = .flat
  lexical_mode : lexical.mode = .lexical
  declared : ∀ frame ∈ lexical.current :: lexical.outer, ∀ x, frame.declares x = true →
    flat.declaresHere x = true

theorem Within.exists_outer {s s' : Scope} (h : s.Within s') {frame : Frame}
    (hm : frame ∈ s'.outer) : ∃ before ∈ s.outer, before.Agrees frame := by
  have found {fs gs : List Frame} (hall : List.Forall₂ Frame.Agrees fs gs) :
      frame ∈ gs → ∃ before ∈ fs, before.Agrees frame := by
    induction hall with
    | nil => simp
    | cons hagrees _ ih =>
      rw [List.mem_cons]
      rintro (rfl | hm)
      · exact ⟨_, List.mem_cons_self, hagrees⟩
      · obtain ⟨before, hb, hagrees⟩ := ih hm
        exact ⟨before, List.mem_cons_of_mem _ hb, hagrees⟩
  exact found h.outer hm

theorem covers_start : Covers (start .flat) (start .lexical) := by
  refine ⟨rfl, rfl, fun frame hm x hx => ?_⟩
  rw [start, List.mem_singleton] at hm
  rw [hm] at hx
  cases hx

/-- An operation declares in the single frame what it declares in the innermost one. -/
theorem Covers.perform {flat lexical : Scope} (h : flat.Covers lexical) (op : Operation) :
    (flat.perform op).Covers (lexical.perform op) := by
  obtain ⟨hmode, hflat⟩ := perform_flat h.flat_mode op
  have kept {x : String} (hx : flat.declaresHere x = true) :
      (flat.perform op).declaresHere x = true := by
    rw [hflat, hx, Bool.or_true]
  cases hf : op.isFraming with
  | false =>
    obtain ⟨hwithin, hdeclared⟩ := lexical.perform_within hf
    refine ⟨hmode, hwithin.mode.trans h.lexical_mode, fun frame hm x hx => ?_⟩
    rcases List.mem_cons.1 hm with rfl | hm
    · have here : (lexical.perform op).declaresHere x = true := hx
      rw [hdeclared, Bool.or_eq_true] at here
      rw [hflat, Bool.or_eq_true]
      exact here.imp_right (h.declared _ List.mem_cons_self x)
    · obtain ⟨before, hb, hagrees⟩ := hwithin.exists_outer hm
      rw [hagrees x] at hx
      exact kept (h.declared before (List.mem_cons_of_mem _ hb) x hx)
  | true =>
    cases op with
    | push kind =>
      have pushed : lexical.perform (.push kind) =
          { lexical with current := { kind }, outer := lexical.current :: lexical.outer } := by
        rw [Scope.perform, push, h.lexical_mode]
      rw [pushed]
      refine ⟨hmode, h.lexical_mode, fun frame hm x hx => ?_⟩
      rcases List.mem_cons.1 hm with rfl | hm
      · cases hx
      · exact kept (h.declared frame hm x hx)
    | pop =>
      cases houter : lexical.outer with
      | nil =>
        have same : lexical.perform .pop = lexical := by
          rw [Scope.perform, pop, h.lexical_mode, houter]
        rw [same]
        exact ⟨hmode, h.lexical_mode, fun frame hm x hx => kept (h.declared frame hm x hx)⟩
      | cons frame rest =>
        have popped : lexical.perform .pop = { lexical with current := frame, outer := rest } := by
          rw [Scope.perform, pop, h.lexical_mode, houter]
        rw [popped]
        refine ⟨hmode, h.lexical_mode, fun inner hm x hx => kept (h.declared inner ?_ x hx)⟩
        rw [houter]
        exact List.mem_cons_of_mem _ hm
    | _ => cases hf

theorem Covers.performAll {flat lexical : Scope} (h : flat.Covers lexical) (ops : List Operation) :
    (flat.performAll ops).Covers (lexical.performAll ops) := by
  induction ops generalizing flat lexical with
  | nil => exact h
  | cons op ops ih => exact ih (h.perform op)

end Scope

/-! ## Scripts -/

/-- A run of the emitter over a script, with the outline of its lines. -/
structure Outlines (style : Style) (script : Block) (text : String) (o : Outline) : Prop where
  run : emitScript style script = .ok text
  emits : ∃ s, Emits ⟨style, .script⟩ (.block script) (.start style.scopeMode) s o
  lines : text = Line.joinAll o.lines
  shaped : o.All Shaped

theorem exists_outlines {style : Style} {script : Block} {text : String}
    (h : emitScript style script = .ok text) : ∃ o, Outlines style script text o := by
  obtain ⟨s, o, ho, htext⟩ := emitScript_eq_ok h
  exact ⟨o, h, ⟨s, ho⟩, htext, ho.shaped⟩

theorem Outlines.marks {style : Style} {script : Block} {text : String} {o : Outline}
    (h : Outlines style script text o) :
    o.marks = (Scope.start style.scopeMode).marks (blockOperations style.naming false script) := by
  obtain ⟨s, ho⟩ := h.emits
  exact ho.performs.marks

/-- What the outlines of two runs over the same operations declare, the first with one frame and the
second with a frame for each body. An operation of the list is one occurrence of a name. -/
structure DeclaresLess (ops : List Operation) (flat lexical : Outline) : Prop where
  /-- The lines about names are those that the operations write. -/
  flat_marks : flat.marks = (Scope.start .flat).marks ops
  lexical_marks : lexical.marks = (Scope.start .lexical).marks ops
  /-- What is declared with one frame is declared with many, at the same occurrence. -/
  declared : ∀ pre op post x, ops = pre ++ op :: post →
    .declares x ∈ op.marks ((Scope.start .flat).performAll pre) →
      .declares x ∈ op.marks ((Scope.start .lexical).performAll pre)
  /-- With one frame a name is declared at most once. -/
  once : ∀ x, flat.marks.countP (·.isDeclarationOf x) ≤ 1
  /-- With one frame a name is not declared where it was introduced before. -/
  first : ∀ pre op post x, ops = pre ++ op :: post →
    .declares x ∈ op.marks ((Scope.start .flat).performAll pre) →
      ∀ earlier ∈ pre, earlier.introduces x = false

theorem declaresLess_of_marks {ops : List Operation} {flat lexical : Outline}
    (hflat : flat.marks = (Scope.start .flat).marks ops)
    (hlexical : lexical.marks = (Scope.start .lexical).marks ops) :
    DeclaresLess ops flat lexical where
  flat_marks := hflat
  lexical_marks := hlexical
  declared pre op post x _ hm := by
    obtain ⟨hbinds, hnot⟩ := Operation.declares_mem_marks.1 hm
    have covers := Scope.covers_start.performAll pre
    refine Operation.declares_mem_marks.2 ⟨hbinds, Bool.eq_false_iff.2 fun hd => ?_⟩
    have declared := covers.declared _ List.mem_cons_self x hd
    rw [hnot] at declared
    cases declared
  once x := by
    rw [hflat]
    exact Scope.countP_marks_flat rfl ops x
  first pre op post x _ hm earlier he := by
    obtain ⟨-, hnot⟩ := Operation.declares_mem_marks.1 hm
    rw [Scope.declaresHere_performAll_flat rfl, Bool.or_eq_false_iff, List.any_eq_false] at hnot
    exact Bool.eq_false_iff.2 (hnot.1 earlier he)

/-- A script that is emitted at all is emitted with one frame for the whole script and with one for
each body. The first run declares a name at most once, never where a parameter that is written, a
loop, a handler, a `global` line or an assignment has introduced it before, and only where the
second declares it too. -/
theorem flat_declares_less {style : Style} {script : Block} {text : String}
    (h : emitScript style script = .ok text) :
    ∃ flatText flat lexicalText lexical,
      Outlines { style with scopeMode := .flat } script flatText flat ∧
      Outlines { style with scopeMode := .lexical } script lexicalText lexical ∧
      DeclaresLess (blockOperations style.naming false script) flat lexical := by
  have accepted (mode : ScopeMode) :
      ∃ text, emitScript { style with scopeMode := mode } script = .ok text := by
    have same := verdict_emitScript { style with scopeMode := mode } style script
    rw [h] at same
    exact verdict_eq_none.1 same
  obtain ⟨flatText, hflat⟩ := accepted .flat
  obtain ⟨lexicalText, hlexical⟩ := accepted .lexical
  obtain ⟨flat, ho⟩ := exists_outlines hflat
  obtain ⟨lexical, ho'⟩ := exists_outlines hlexical
  exact ⟨flatText, flat, lexicalText, lexical, ho, ho', declaresLess_of_marks ho.marks ho'.marks⟩

/-- A function assigns to a name, and the script to the name of its parameter. -/
theorem flat_declares_less_parameter :
    let one : Expr := .constant (.int "1")
    let script : Block := [
      ⟨1, .functionDef "f" [{ name := "a" }] [] [⟨2, .assign [.name "b"] one⟩]⟩,
      ⟨3, .assign [.name "a"] one⟩]
    ∃ text, emitScript {} script = .ok text ∧ ∃ flat lexical,
      Outlines { scopeMode := .flat } script "def f(a)\n    var b = 1\nend\na = 1\n" flat ∧
      Outlines {} script "def f(a)\n    var b = 1\nend\nvar a = 1\n" lexical ∧
      DeclaresLess (blockOperations .builtin false script) flat lexical := by
  intro one script
  obtain ⟨text, run⟩ : ∃ text, emitScript {} script = .ok text := ⟨_, rfl⟩
  obtain ⟨flatText, flat, lexicalText, lexical, hflat, hlexical, hless⟩ := flat_declares_less run
  obtain rfl : _ = flatText := Except.ok.inj hflat.run
  obtain rfl : _ = lexicalText := Except.ok.inj hlexical.run
  exact ⟨text, run, flat, lexical, hflat, hlexical, hless⟩

/-- The receiver of a method is not written, and the parameters of an anonymous function belong to
no body : neither introduces its name. -/
theorem flat_declares_name_of_receiver :
    let one : Expr := .constant (.int "1")
    let method : Block := [
      ⟨1, .classDef "A" [] [⟨2, .functionDef "f" [{ name := "self" }] [] [⟨3, .pass⟩]⟩]⟩,
      ⟨4, .assign [.name "self"] one⟩]
    let anonymous : Block := [⟨1, .assign [.name "f"] (.lambda ["x"] (.name "x"))⟩,
      ⟨2, .assign [.name "x"] one⟩]
    emitScript { scopeMode := .flat } method =
      .ok "class A\n    def f()\n    end\nend\nvar self = 1\n" ∧
    emitScript { scopeMode := .flat } anonymous = .ok "var f = /x -> x\nvar x = 1\n" :=
  ⟨rfl, rfl⟩

end Berrify
