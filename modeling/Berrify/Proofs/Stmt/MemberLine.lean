import Berrify.Proofs.Scope.Stack
import Berrify.Proofs.Stmt.FlatScope
import Berrify.Proofs.Stmt.MethodFields

/-!
# Class attributes and the member list

The member line of a class is made from the assignments to fields in its methods, and the `var`
lines for the names that the class body itself assigns to come from the scope, which the member line
does not tell anything. So a name that is both has two declarations in the class body.

The `var` lines alone declare each name at most once, with one frame for each body and with one for
the whole script. `Stmt.firstUse` says what a body does first about a name, where the bodies inside
of it count only if they share its frame : the class body has a `var` line for the name exactly if
the name is not known before and the body binds it first (`Emits.uses`).
-/

namespace Berrify

open Text Identifier

/-! ## Reading the lines of a class body -/

/-- A line in which no second word stands declares nothing. -/
theorem honest_of_singleWorded {text : String} {role : Role} (h : SingleWorded text) :
    Honest text role := by
  intro x hx hv
  obtain ⟨tail, -, ht⟩ := exists_of_isVarLine hv
  cases hxl : x.toList with
  | nil => exact absurd hxl (toList_ne_nil_of_isWord hx)
  | cons c more =>
    have keyword : ∀ c ∈ ['v', 'a', 'r'], isPathPart c = true := List.all_eq_true.1 (by decide)
    have behind : behindPath text = ' ' :: c :: (more ++ tail) := by
      rw [behindPath, ht, hxl]
      exact (span_path keyword _).2
    have part := all_isNamePart_of_isWord hx c (by simp [hxl])
    rw [h c _ behind] at part
    cases part

theorem renderTarget_cases {view : View} (hn : view.naming.Named) {target : Expr}
    (hw : target.Named) {text : String} (h : renderTarget view target = .ok text) :
    Solid text ∨ ∀ tail, Unassigned (text ++ tail) := by
  match target with
  | .name id => exact .inl (Expr.solid_alone hn hw rfl h)
  | .attribute value attr => exact .inl (Expr.solid_alone hn hw rfl h)
  | .subscript value index =>
    obtain ⟨b, -, a, ha, rfl⟩ := renderTarget_subscript_eq_ok.1 h
    refine .inr fun tail => ?_
    have shape : a ++ "[" ++ b ++ "]" ++ tail = a ++ ("[" ++ (b ++ "]" ++ tail)) := by
      simp only [String.append_assoc]
    rw [shape]
    exact (Expr.write_unassigned hn (hw.inside (by simp [Expr.parts])) ha).bracket _
  | .constant _ | .call .. | .binary .. | .unary .. | .boolean .. | .compare .. | .conditional ..
  | .dict _ | .list _ | .tuple _ | .set _ | .slice .. | .lambda .. | .template _ | .starred _
  | .unsupported _ => simp [renderTarget, throw_eq_ok] at h

/-- A symbol behind a target is no second word. -/
theorem singleWorded_target {view : View} (hn : view.naming.Named) {target : Expr}
    (hw : target.Named) {text : String} (h : renderTarget view target = .ok text) {tail : String}
    (ht : ∀ c ∈ tail.toList.head?, isNamePart c = false) :
    SingleWorded (text ++ (" " ++ tail)) := by
  rcases renderTarget_cases hn hw h with solid | unassigned
  · exact solid.singleWorded_append ht
  · exact (unassigned _).singleWorded

theorem honest_assignment_named {view : View} (hn : view.naming.Named) {target : Expr}
    (hw : target.Named) {text : String} (h : renderTarget view target = .ok text) (s : Scope)
    (kind : Container) (value : String) :
    Honest (assignmentLine (s.assign target kind).2 text value)
      (assignmentRole (s.assign target kind).2 target) := by
  have shape : text ++ " = " ++ value = text ++ (" " ++ ("= " ++ value)) := by
    apply String.toList_injective
    simp
  have line : SingleWorded (text ++ " = " ++ value) := by
    rw [shape]
    refine singleWorded_target hn hw h fun c hc => ?_
    simp only [String.toList_append] at hc
    cases hc
    decide
  refine honest_assignmentLine h (fun _ => honest_of_singleWorded line) ?_ s kind
  rintro id rfl
  exact hw.here

/-- The lines of a body itself read as a `var` line for a name only if they declare it. The bodies
inside of it are left out, because a member list reads as a `var` line for its first field. -/
theorem Emits.honest_own {site : Site} {phrase : Phrase} {s s' : Scope} {o : Outline}
    (h : Emits site phrase s s' o) (hn : site.style.naming.Named) (hw : phrase.Named) :
    ∀ line ∈ o.own, Honest line.1 line.2 := by
  have closing : ∀ line ∈ Outline.closing.own, Honest line.1 line.2 :=
    List.forall_mem_singleton.2 (honest_of_lineKind (by decide))
  have cons {text : String} {role : Role} {rest : List (String × Role)} (ht : Honest text role)
      (hr : ∀ line ∈ rest, Honest line.1 line.2) :
      ∀ line ∈ (text, role) :: rest, Honest line.1 line.2 :=
    List.forall_mem_cons.2 ⟨ht, hr⟩
  have append {front rest : List (String × Role)} (hf : ∀ line ∈ front, Honest line.1 line.2)
      (hr : ∀ line ∈ rest, Honest line.1 line.2) :
      ∀ line ∈ front ++ rest, Honest line.1 line.2 :=
    List.forall_mem_append.2 ⟨hf, hr⟩
  have none : ∀ line ∈ Outline.nil.own, Honest line.1 line.2 := List.forall_mem_nil _
  induction h with
  | classDef hh _ _ =>
    obtain ⟨rest, rfl⟩ := exists_of_classHeader hh
    exact cons (honest_opening (by decide) _) closing
  | @functionDef site name params _ body s s' isStatic _ _ _ _ _ _ _ =>
    refine cons ?_ closing
    rw [functionHeader, String.append_assoc, String.append_assoc, String.append_assoc]
    split
    · exact honest_opening (by decide) _
    · exact honest_opening (by decide) _
  | assign _ _ ih => exact ih hn hw.1
  | declareValue _ ht => exact cons (honest_assignment_named hn hw.1 ht _ _ _) none
  | @declareFirst site id hint s _ =>
    refine cons (fun x hx hv => ?_) none
    have word : isWord id = true := Expr.Everywhere.here hw.1
    have tail : Apart "".toList := by simp [Apart]
    have bare : isVarLine x ("var " ++ id ++ "") = true := by simpa using hv
    exact congrArg Role.declares (eq_of_isVarLine hx word tail bare)
  | @update site target value op s text token given ht hop _ =>
    refine cons (honest_of_singleWorded ?_) none
    have shape : text ++ " " ++ token ++ "= " ++ given =
        text ++ (" " ++ (token ++ "= " ++ given)) := by
      simp only [String.append_assoc]
    rw [shape]
    refine singleWorded_target hn hw.1 ht ?_
    cases op <;> cases hop <;> simp <;> decide
  | @branch site test body orelse s s₁ s₂ text o₁ o₂ _ _ _ ih₁ ih₂ =>
    have first := ih₁ hn (hw.2 body (by simp [Stmt.blocks]))
    have second := ih₂ hn (hw.2 orelse (by simp [Stmt.blocks]))
    rw [Outline.own, Outline.own, Outline.own_append]
    exact cons (honest_opening (by decide) _) (append first (append second closing))
  | @forEach site target iter body orelse s s' key header o hh _ ih =>
    obtain ⟨rfl, -, receiver, keywords, -, text, -, rfl⟩ := loopHeader_eq_ok.1 hh
    refine cons ?_ (append (ih hn (hw.2 body (by simp [Stmt.blocks]))) closing)
    rw [String.append_assoc, String.append_assoc, String.append_assoc]
    exact honest_opening (by decide) _
  | @whileLoop site test body orelse s s₁ s₂ text o₁ o₂ _ _ _ ih₁ ih₂ =>
    have first := ih₁ hn (hw.2 body (by simp [Stmt.blocks]))
    have second := ih₂ hn ⟨.inl rfl, hw.2 orelse (by simp [Stmt.blocks])⟩
    rw [Outline.own, Outline.own, Outline.own_append]
    exact cons (honest_opening (by decide) _) (append first (append second closing))
  | @attempt site body handlers cleanup s s₁ s₂ s₃ o₁ o₂ o₃ _ _ _ ih₁ ih₂ ih₃ =>
    have first := ih₁ hn (hw.2 body (by simp [Stmt.blocks]))
    have caught := ih₂ hn fun handler hm =>
      hw.2 handler.body (by simp [Stmt.blocks, List.mem_map_of_mem hm])
    have last := ih₃ hn ⟨.inr rfl, hw.2 cleanup (by simp [Stmt.blocks])⟩
    rw [Outline.own, Outline.own, Outline.own_append, Outline.own_append]
    exact cons (honest_of_lineKind (by decide))
      (append first (append (append caught last) closing))
  | leave => exact cons (honest_of_tidy (tidy_of_isPlainName (by decide))) none
  | giveBack _ =>
    exact cons (honest_word rfl (by decide : isWord "return" = true) (by decide) _) none
  | expr _ ht =>
    exact cons (honest_of_singleWorded (Expr.write_unassigned hn hw.1 ht).singleWorded) none
  | leaveLoop => exact cons (honest_of_tidy (tidy_of_isPlainName (by decide))) none
  | nextRound => exact cons (honest_of_tidy (tidy_of_isPlainName (by decide))) none
  | importNames _ =>
    refine (Outline.all_flat fun text hm => ?_).own
    obtain ⟨imported, -, rfl⟩ := List.mem_map.1 hm
    unfold importText
    split
    · rw [String.append_assoc, String.append_assoc]
      exact honest_word rfl (by decide : isWord "import" = true) (by decide) _
    · exact honest_word rfl (by decide : isWord "import" = true) (by decide) _
  | globalNames =>
    exact cons (honest_word rfl (by decide : isWord "global" = true) (by decide) _) none
  | blockCons _ _ ih₁ ih₂ =>
    obtain ⟨here, later⟩ := blockNamed_cons.1 hw
    rw [Outline.own_append]
    exact append (ih₁ hn here) (ih₂ hn later)
  | @otherwiseElif site n test body orelse s s₁ s₂ text o₁ o₂ _ _ _ ih₁ ih₂ =>
    obtain ⟨⟨-, inside⟩, -⟩ := blockNamed_cons.1 hw
    have first := ih₁ hn (inside body (by simp [Stmt.blocks]))
    have second := ih₂ hn (inside orelse (by simp [Stmt.blocks]))
    exact cons (honest_of_lineKind (by rw [lineKind_elif]; decide)) (append first second)
  | otherwiseElse _ _ ih => exact ih hn ⟨.inl rfl, hw⟩
  | clauseCons _ _ ih =>
    refine cons (honest_of_lineKind ?_) (append (ih hn hw.2) none)
    rcases hw.1 with rfl | rfl <;> decide
  | handlersBare _ _ ih₁ ih₂ =>
    have first := ih₁ hn (hw _ List.mem_cons_self)
    have others := ih₂ hn fun handler hm => hw handler (List.mem_cons_of_mem _ hm)
    exact cons (honest_of_lineKind (by decide)) (append first others)
  | handlersNamed _ _ ih₁ ih₂ =>
    have first := ih₁ hn (hw _ List.mem_cons_self)
    have others := ih₂ hn fun handler hm => hw handler (List.mem_cons_of_mem _ hm)
    exact cons (honest_of_lineKind (by rw [lineKind_except]; decide)) (append first others)
  | targetsCons ht _ ih =>
    have later := ih hn fun other hm => hw other (List.mem_cons_of_mem _ hm)
    exact cons (honest_assignment_named hn (hw _ List.mem_cons_self) ht _ _ _) later
  | declareAgain _ | declareField _ _ | docText | pass | blockNil | clauseNil | handlersNil
  | targetsNil => exact none

/-! ## One declaration besides the member list -/

namespace Outline

theorem countP_own_le (p : Role → Bool) (hother : p .other = false) (o : Outline) :
    o.own.countP (p ·.2) ≤ o.marks.countP p := by
  induction o with
  | nil => rfl
  | line text role rest ih =>
    rw [own, marks, List.countP_append, List.countP_cons]
    cases role <;> simp [Role.mark, hother] <;> omega
  | block inner rest ih₁ ih₂ =>
    rw [own, marks, List.countP_append, List.countP_append]
    omega
  | body params inner rest _ ih =>
    rw [own, marks, List.countP_append]
    omega

end Outline

/-- With either scope mode the lines of a body declare a name at most once. -/
theorem Emits.declares_once {site : Site} {phrase : Phrase} {s s' : Scope} {o : Outline}
    (h : Emits site phrase s s' o) (x : String) : o.own.countP (·.2.isDeclarationOf x) ≤ 1 := by
  cases hmode : s.mode with
  | lexical =>
    have count := countP_declares_le (h.obedient hmode).obeys x
    rwa [Outline.roles, List.countP_map] at count
  | flat =>
    have count := Scope.countP_marks_flat hmode
      (phrase.operations site.style.naming (site.body == .classBody)) x
    rw [← h.performs.marks] at count
    have own := o.countP_own_le (·.isDeclarationOf x) rfl
    split at count <;> omega

/-! ## What a body does first about a name -/

/-- What a body does about a name. -/
inductive Use where
  /-- An assignment or declaration. -/
  | binds
  /-- A loop, handler or `global` line, or whatever a body inside does to a frame that it shares. -/
  | introduces
deriving DecidableEq, Repr

/-- The use of a name as a target. -/
def targetUse (x : String) : Expr → Option Use
  | .name id => if id == x then some .binds else none
  | _ => none

/-- The use of a name in a list of names that are introduced. -/
def nameUse (x : String) (names : List String) : Option Use :=
  if names.contains x then some .introduces else none

/-- The use of a name as the variable of a loop. -/
def loopUse (x : String) : Expr → Option Use
  | .name id => nameUse x [id]
  | _ => none

/-- What the use of a name in a body means to the body around it : nothing if each has its own
frame. -/
def innerUse : ScopeMode → Option Use → Option Use
  | .lexical, _ => none
  | .flat, use => use.map fun _ => .introduces

mutual
/-- What a statement does first about a name, in a class body or not. -/
def Stmt.firstUse (mode : ScopeMode) (inClass : Bool) (x : String) : Stmt → Option Use
  | .classDef _ _ body => innerUse mode (firstUseIn mode true x body)
  | .functionDef _ params decorators body =>
    innerUse mode ((nameUse x
      ((ownParams (inClass && !isDecoratedStatic decorators) params).map (·.name))).or
        (firstUseIn mode false x body))
  | .assign targets _ => targets.findSome? (targetUse x)
  | .declare target _ _ => targetUse x target
  | .branch _ body orelse => (firstUseIn mode inClass x body).or (firstUseIn mode inClass x orelse)
  | .forEach target _ body orelse =>
    (loopUse x target).or
      ((firstUseIn mode inClass x body).or (firstUseIn mode inClass x orelse))
  | .whileLoop _ body orelse =>
    (firstUseIn mode inClass x body).or (firstUseIn mode inClass x orelse)
  | .attempt body handlers orelse cleanup =>
    (firstUseIn mode inClass x body).or ((firstUseInHandlers mode inClass x handlers).or
      ((firstUseIn mode inClass x orelse).or (firstUseIn mode inClass x cleanup)))
  | .globalNames names => nameUse x names
  | _ => none
/-- What a block does first about a name. -/
def firstUseIn (mode : ScopeMode) (inClass : Bool) (x : String) :
    List (Located Stmt) → Option Use
  | [] => none
  | ⟨_, stmt⟩ :: rest => (stmt.firstUse mode inClass x).or (firstUseIn mode inClass x rest)
/-- What handlers do first about a name. -/
def firstUseInHandlers (mode : ScopeMode) (inClass : Bool) (x : String) :
    List (Handler (List (Located Stmt))) → Option Use
  | [] => none
  | ⟨_, name, body⟩ :: rest =>
    (nameUse x name.toList).or
      ((firstUseIn mode inClass x body).or (firstUseInHandlers mode inClass x rest))
end

/-- An assignment to a target binds exactly the name that the target is. -/
theorem targetUse_eq_binds (x : String) (target : Expr) (kind : Container) :
    targetUse x target = some .binds ↔ (Operation.assign target kind).binds x = true := by
  cases target <;> simp [targetUse, Operation.binds]

theorem targetUse_isSome (x : String) (target : Expr) (kind : Container) :
    (targetUse x target).isSome = (Operation.assign target kind).introduces x := by
  cases target with
  | name id =>
    rw [targetUse, Operation.introduces]
    cases id == x <;> rfl
  | _ => rfl

/-- What a part of a script does first about a name. -/
def Phrase.firstUse (mode : ScopeMode) (inClass : Bool) (x : String) : Phrase → Option Use
  | .stmt s => s.firstUse mode inClass x
  | .block b => firstUseIn mode inClass x b
  | .otherwise b => firstUseIn mode inClass x b
  | .clause _ b => firstUseIn mode inClass x b
  | .handlers hs => firstUseInHandlers mode inClass x hs
  | .targets _ _ ts => ts.findSome? (targetUse x)

/-- The first use of a name between two scopes : it makes the name declared behind, and the lines
declare the name if and only if it was not declared before and is bound first. -/
structure Uses (x : String) (use : Option Use) (s s' : Scope) (o : Outline) : Prop where
  mode : s'.mode = s.mode
  behind : s'.declaresHere x = (s.declaresHere x || use.isSome)
  declares : (∃ line ∈ o.own, line.2 = .declares x) ↔
    s.declaresHere x = false ∧ use = some .binds

namespace Uses

variable {x : String} {use other : Option Use} {s t u : Scope} {o p : Outline}

theorem nil (s : Scope) : Uses x none s s .nil := by
  refine ⟨rfl, by simp, ?_⟩
  simp [Outline.own]

theorem append (h : Uses x use s t o) (h' : Uses x other t u p) :
    Uses x (use.or other) s u (o ++ p) := by
  refine ⟨h'.mode.trans h.mode, ?_, ?_⟩
  · rw [h'.behind, h.behind, Option.isSome_or, Bool.or_assoc]
  · have split : (∃ line ∈ (o ++ p).own, line.2 = .declares x) ↔
        (∃ line ∈ o.own, line.2 = .declares x) ∨ ∃ line ∈ p.own, line.2 = .declares x := by
      simp [Outline.own_append, or_and_right, exists_or]
    rw [split, h.declares, h'.declares, h.behind]
    cases use <;> simp

theorem block (h : Uses x use s t o) (h' : Uses x other t u p) :
    Uses x (use.or other) s u (.block o p) := by
  have both := h.append h'
  refine ⟨both.mode, both.behind, ?_⟩
  rw [← both.declares, Outline.own_append]
  rfl

/-- A line that is about no name. -/
theorem silent {text : String} (h : Uses x use s t o) : Uses x use s t (.line text .other o) := by
  refine ⟨h.mode, h.behind, ?_⟩
  rw [← h.declares]
  simp [Outline.own]

theorem closing (s : Scope) : Uses x none s s .closing :=
  (nil s).silent

/-- The line that closes a block is about no name. -/
theorem closed (h : Uses x use s t o) : Uses x use s t (o ++ .closing) := by
  have both := h.append (closing t)
  rwa [Option.or_none] at both

/-- A line about names in front of others. -/
theorem line {text : String} {role : Role} (h : Uses x use s t (.only text role))
    (h' : Uses x other t u o) : Uses x (use.or other) s u (.line text role o) :=
  h.append h'

theorem only {text : String} {role : Role} (hmode : t.mode = s.mode)
    (hbehind : t.declaresHere x = (s.declaresHere x || use.isSome))
    (hrole : role = .declares x ↔ s.declaresHere x = false ∧ use = some .binds) :
    Uses x use s t (.only text role) := by
  refine ⟨hmode, hbehind, ?_⟩
  rw [← hrole]
  simp [Outline.only, Outline.own]

/-- A line that introduces names. -/
theorem introduced {text : String} {names : List String} (hmode : t.mode = s.mode)
    (hbehind : t.declaresHere x = (names.contains x || s.declaresHere x)) :
    Uses x (nameUse x names) s t (.only text (.introduces names)) := by
  refine only hmode ?_ ?_
  · rw [hbehind, Bool.or_comm, nameUse]
    split <;> simp_all
  · unfold nameUse
    split <;> simp

/-- An assignment line. -/
theorem assignment {text : String} (s : Scope) (target : Expr) (kind : Container) :
    Uses x (targetUse x target) s (s.assign target kind).1
      (.only text (assignmentRole (s.assign target kind).2 target)) := by
  have inside : (Operation.assign target kind).isFraming = false := rfl
  obtain ⟨within, behind⟩ := s.perform_within inside
  refine only within.mode ?_ ?_
  · rw [targetUse_isSome x target kind, Bool.or_comm]
    exact behind x
  · rw [targetUse_eq_binds x target kind, and_comm, ← Operation.declares_mem_marks,
      Operation.marks, List.mem_singleton, eq_comm]

/-- The declaration of a name without a value. -/
theorem declaration {text id : String} (hd : s.declaresHere id = false) (kind : Container) :
    Uses x (targetUse x (.name id)) s (s.declare id kind) (.only text (.declares id)) := by
  refine only rfl ?_ ?_
  · rw [targetUse_isSome x _ kind, Scope.declaresHere_declare, Bool.or_comm, Bool.beq_comm]
    rfl
  · rw [targetUse_eq_binds x _ kind, Role.declares.injEq, Operation.binds, beq_iff_eq]
    constructor
    · rintro rfl
      exact ⟨hd, rfl⟩
    · exact And.right

/-- A declaration of a name that is declared already, or of a field, writes no line. -/
theorem unwritten (hmode : t.mode = s.mode)
    (hbehind : t.declaresHere x = (s.declaresHere x || use.isSome))
    (hnone : s.declaresHere x = true ∨ use = none) : Uses x use s t .nil := by
  refine ⟨hmode, hbehind, ?_⟩
  rcases hnone with h | rfl <;> simp [Outline.own, *]

/-- A body inside. With a frame for each body the scope behind it is the one before it, and with one
frame for all the names that the body introduces stay declared. -/
theorem body {header : String} {params : List String} (hmode : t.mode = s.mode)
    (hlexical : s.mode = .lexical → t.pop.declaresHere x = s.declaresHere x)
    (hflat : s.mode = .flat → t.declaresHere x = (s.declaresHere x || use.isSome)) :
    Uses x (innerUse s.mode use) s t.pop (.line header .other (.body params o .closing)) := by
  refine ⟨t.mode_pop.trans hmode, ?_, ?_⟩
  · cases hs : s.mode with
    | lexical => simp [hlexical hs, innerUse]
    | flat =>
      have same : t.pop = t := by rw [Scope.pop, hmode, hs]
      rw [same, hflat hs]
      simp [innerUse]
  · cases s.mode <;> simp [Outline.own, Outline.closing, Outline.only, innerUse]

end Uses

/-- The scope at the start of a function body that shares its frame. -/
theorem declaresHere_functionScope (site : Site) {s : Scope} (hmode : s.mode = .flat)
    (name : String) (params : List Param) (x : String) :
    (functionScope site s name params).declaresHere x =
      (s.declaresHere x || (nameUse x (params.map (·.name))).isSome) := by
  have shared : (s.define name).push .functionBody = s.define name := by
    rw [Scope.push]
    simp [Scope.define, hmode]
  rw [functionScope, shared, (Scope.declareParams_within _ _ _).2 x, Bool.or_comm, nameUse]
  congr 1
  split <;> simp_all

theorem mode_functionScope (site : Site) (s : Scope) (name : String) (params : List Param) :
    (functionScope site s name params).mode = s.mode :=
  (Scope.declareParams_within _ _ _).1.mode.trans (Scope.mode_push _ _)

/-- The lines of a part of a script declare a name, and the scope behind it knows the name, as its
first use tells. -/
theorem Emits.uses {site : Site} {phrase : Phrase} {s s' : Scope} {o : Outline}
    (h : Emits site phrase s s' o) (x : String) :
    Uses x (phrase.firstUse s.mode (site.body == .classBody) x) s s' o := by
  induction h with
  | @classDef site name bases body s s' header o hh ho ih =>
    refine .body (ih.mode.trans (s.mode_push _)) (fun hs => ?_) fun hs => ?_
    · exact congrFun ((Emits.classDef hh ho).obedient hs).declared x
    · have shared : s.push .classBody = s := by rw [Scope.push, hs]
      rw [shared] at ih
      exact ih.behind
  | @functionDef site name params decorators body s s' isStatic texts o hs hc hg ho ih =>
    obtain ⟨hstatic, -⟩ := staticDecorators_of_ok hs
    have mode := mode_functionScope site s name (writtenParams site isStatic params)
    have written : ownParams (site.body == .classBody && !isDecoratedStatic decorators) params =
        writtenParams site isStatic params := by
      rw [← hstatic, writtenParams]
    rw [Phrase.firstUse, Stmt.firstUse, written]
    refine .body (ih.mode.trans mode) (fun hlexical => ?_) fun hflat => ?_
    · exact congrFun ((Emits.functionDef hs hc hg ho).obedient hlexical).declared x
    · have start := declaresHere_functionScope site hflat name
        (writtenParams site isStatic params) x
      rw [ih.behind, start, mode, Option.isSome_or, Bool.or_assoc]
      rfl
  | assign _ _ ih => exact ih
  | declareValue _ _ => exact .assignment _ _ _
  | declareFirst hd => exact .declaration hd _
  | @declareAgain site id hint s hd =>
    change Uses x (targetUse x (.name id)) s s .nil
    rw [targetUse]
    split
    · rename_i hx
      rw [beq_iff_eq] at hx
      subst hx
      exact .unwritten rfl (by simp [hd]) (.inl hd)
    · exact .nil s
  | @declareField site target hint s text hb _ =>
    obtain ⟨-, within, same⟩ := s.assign_of_not_isBareName (.ofHint site.style.naming hint) hb
    have unused : targetUse x target = none := by
      cases target <;> first | rfl | cases hb
    exact .unwritten within.mode (by simp [same, Phrase.firstUse, Stmt.firstUse, unused])
      (.inr unused)
  | update _ _ _ => exact (Uses.nil _).silent
  | branch _ _ _ ih₁ ih₂ =>
    rw [ih₁.mode] at ih₂
    exact (ih₁.block ih₂.closed).silent
  | @forEach site target iter body orelse s s' key header o hh _ ih =>
    obtain ⟨rfl, rfl, -⟩ := loopHeader_eq_ok.1 hh
    have looped : Uses x (nameUse x [key]) s (s.declare key .unknown)
        (.only header (.introduces [key])) :=
      .introduced rfl (congrFun (s.declaresHere_introduced key .unknown) x)
    exact looped.line (ih.block (.closing _))
  | whileLoop _ _ _ ih₁ ih₂ =>
    rw [ih₁.mode] at ih₂
    exact (ih₁.block ih₂.closed).silent
  | attempt _ _ _ ih₁ ih₂ ih₃ =>
    rw [ih₂.mode, ih₁.mode] at ih₃
    rw [ih₁.mode] at ih₂
    have inner := ih₁.block (ih₂.append ih₃).closed
    simpa [Phrase.firstUse, Stmt.firstUse, firstUseIn] using inner.silent
  | leave | giveBack _ | expr _ _ | leaveLoop | nextRound => exact (Uses.nil _).silent
  | @importNames site names s _ =>
    induction names.map importText with
    | nil => exact .nil s
    | cons text texts ih => exact ih.silent
  | @globalNames site names s =>
    obtain ⟨within, behind⟩ := Scope.declareGlobals_within names s
    exact .introduced within.mode (behind x)
  | blockCons _ _ ih₁ ih₂ =>
    rw [ih₁.mode] at ih₂
    exact ih₁.append ih₂
  | otherwiseElif _ _ _ ih₁ ih₂ =>
    rw [ih₁.mode] at ih₂
    simpa [Phrase.firstUse, Stmt.firstUse, firstUseIn] using (ih₁.block ih₂).silent
  | otherwiseElse _ _ ih => exact ih
  | clauseCons _ _ ih =>
    have inner := ih.block (.nil _)
    rw [Option.or_none] at inner
    exact inner.silent
  | handlersBare _ _ ih₁ ih₂ =>
    rw [ih₁.mode] at ih₂
    exact (ih₁.block ih₂).silent
  | @handlersNamed site caught name body rest s s₁ s₂ o₁ o₂ _ _ ih₁ ih₂ =>
    rw [ih₁.mode] at ih₂
    have caught : Uses x (nameUse x [name]) s (s.declare name .unknown)
        (.only ("except .. as " ++ name) (.introduces [name])) :=
      .introduced rfl (congrFun (s.declaresHere_introduced name .unknown) x)
    exact caught.line (ih₁.block ih₂)
  | @targetsCons site value text kind target rest s s' o _ _ ih =>
    have first : Uses x (targetUse x target) s (s.assign target kind).1
        (.only (assignmentLine (s.assign target kind).2 text value)
          (assignmentRole (s.assign target kind).2 target)) := .assignment s target kind
    have both := first.line ih
    rw [Phrase.firstUse, List.findSome?_cons]
    cases hu : targetUse x target <;> simpa [hu, Phrase.firstUse] using both
  | docText | pass | blockNil | clauseNil | handlersNil | targetsNil => exact .nil _

/-! ## Names that are declared twice -/

/-- How often a class body declares a name, in its member list and in `var` lines of its own. -/
def declarationsOf (x : String) (fields : List String) (own : List (String × Role)) : Nat :=
  fields.count x + own.countP (isVarLine x ·.1)

/-- A class body binds a name before anything else in it introduces the name. The name is not known
before the class body, which can only be with one frame for the whole script. -/
def BoundFirst (s : Scope) (body : Block) (x : String) : Prop :=
  (s.push .classBody).declaresHere x = false ∧ firstUseIn s.mode true x body = some .binds

/-- A class is emitted with a line for its member list. Of its other lines at most one declares a
name, and one does exactly if the class body binds the name first. So a name is declared twice if
and only if it is such a name and in the member list at the same time. -/
theorem member_line_redeclares_iff {site : Site} (hmembers : site.style.declareMembers = true)
    (hn : site.style.naming.Named) {name : String} {bases : List Expr} {body : Block}
    (hw : BlockNamed body) {s : Scope} {r : Emitted}
    (h : (Stmt.classDef name bases body).emit site s = .ok r) :
    ∃ header o s', classHeader (site.view s) name bases = .ok header ∧
      Emits (site.within .classBody) (.block body) (s.push .classBody) s' o ∧
      r.lines = .flush header ::
        nested ((if memberFields body = [] then []
          else [.flush ("var " ++ commaSeparated (memberFields body))]) ++ o.lines) ++
        [.flush "end"] ∧
      ∀ x, isWord x = true →
        o.own.countP (isVarLine x ·.1) ≤ 1 ∧
        ((∃ line ∈ o.own, isVarLine x line.1 = true) ↔ BoundFirst s body x) ∧
        (declarationsOf x (memberFields body) o.own ≤ 1 ↔
          ¬(x ∈ memberFields body ∧ BoundFirst s body x)) := by
  obtain ⟨header, o, s', hheader, ho, hlines⟩ := exists_outline_of_class hmembers h
  have reads : ReadsAsDeclared o.own :=
    readsAsDeclared_of_honest ho.shaped.own (ho.honest_own hn hw) ho.declares_once
  refine ⟨header, o, s', hheader, ho, hlines, fun x hx => ?_⟩
  have bound : (∃ line ∈ o.own, isVarLine x line.1 = true) ↔ BoundFirst s body x := by
    have uses := (ho.uses x).declares
    rw [Scope.mode_push] at uses
    exact (exists_congr fun line => and_congr_right (reads.declares x hx line)).trans uses
  refine ⟨reads.once x hx, bound, ?_⟩
  have written : 0 < o.own.countP (isVarLine x ·.1) ↔ BoundFirst s body x :=
    List.countP_pos_iff.trans bound
  have listed : (memberFields body).count x = if x ∈ memberFields body then 1 else 0 :=
    (nodup_firstOccurrences _).count
  have once := reads.once x hx
  rw [declarationsOf, listed, ← written]
  by_cases hm : x ∈ memberFields body
  · simp only [hm, if_true, true_and]
    omega
  · simp only [hm, if_false, false_and, not_false_eq_true, iff_true]
    omega

/-- A class with a name of its own besides the field that its method assigns to. -/
theorem member_line_redeclares_iff_of_attribute :
    let zero : Stmt := .assign [.name "y"] (.constant (.int "0"))
    let assignment : Stmt := .assign [.attribute (.name "self") "x"] (.name "y")
    let method : Stmt := .functionDef "f" [{ name := "self" }] [] [⟨4, assignment⟩]
    let body : Block := [⟨2, zero⟩, ⟨3, method⟩]
    ∃ (r : Emitted) (o : Outline),
      (Stmt.classDef "A" [] body).emit ⟨{ declareMembers := true }, .script⟩
        (.start .lexical) = .ok r ∧
      r.lines = .flush "class A" :: nested ([.flush "var x"] ++ o.lines) ++ [.flush "end"] ∧
      (∃ line ∈ o.own, isVarLine "y" line.1 = true) ∧
      ∀ x, isWord x = true → declarationsOf x (memberFields body) o.own ≤ 1 := by
  intro zero assignment method body
  have target : (Expr.attribute (.name "self") "x").Named :=
    Expr.named_attribute (Expr.named_name (by decide)) (by decide)
  have bare : (Expr.name "y").Named := Expr.named_name (by decide)
  have params : method.Named := by
    simp only [method, Stmt.Named]
    decide
  have assigned : BlockNamed [⟨4, assignment⟩] :=
    blockNamed_cons.2 ⟨⟨by simpa [assignment, Stmt.Named] using target,
      by simp [assignment, Stmt.blocks]⟩, blockNamed_nil⟩
  have named : BlockNamed body :=
    blockNamed_cons.2 ⟨⟨by simpa [zero, Stmt.Named] using bare, by simp [zero, Stmt.blocks]⟩,
      blockNamed_cons.2 ⟨⟨params, by simpa [method, Stmt.blocks] using assigned⟩, blockNamed_nil⟩⟩
  obtain ⟨r, run⟩ : ∃ r, (Stmt.classDef "A" [] body).emit ⟨{ declareMembers := true }, .script⟩
      (.start .lexical) = .ok r := ⟨_, rfl⟩
  obtain ⟨header, o, s', hheader, -, hlines, hnames⟩ :=
    member_line_redeclares_iff rfl Naming.named_builtin named run
  cases hheader
  refine ⟨r, o, run, hlines, ?_, fun x hx => ?_⟩
  · exact (hnames "y" (by decide)).2.1.2 ⟨rfl, rfl⟩
  · refine (hnames x hx).2.2.2 ?_
    rintro ⟨hm, -, hfirst⟩
    obtain rfl : x = "x" := List.mem_singleton.1 hm
    cases hfirst

/-- The field that a method assigns to is also a name of the class body, and is declared twice. -/
theorem field_and_attribute_declared_twice :
    let one : Expr := .constant (.int "1")
    let method : Stmt := .functionDef "f" [{ name := "self" }] []
      [⟨4, .assign [.attribute (.name "self") "x"] one⟩]
    let body : Block := [⟨2, .assign [.name "x"] (.constant (.int "0"))⟩, ⟨3, method⟩]
    memberFields body = ["x"] ∧ ∀ mode,
      emitScript { declareMembers := true, scopeMode := mode } [⟨1, .classDef "A" [] body⟩] =
        .ok ("class A\n    var x\n    var x = 0\n    def f()\n        self.x = 1\n" ++
          "    end\nend\n") ∧
      ∃ o s', Emits ⟨{ declareMembers := true, scopeMode := mode }, .classBody⟩ (.block body)
          ((Scope.start mode).push .classBody) s' o ∧
        declarationsOf "x" (memberFields body) o.own = 2 := by
  intro one method body
  refine ⟨rfl, fun mode => ⟨by cases mode <;> rfl, ?_⟩⟩
  have own : Emits ⟨{ declareMembers := true, scopeMode := mode }, .classBody⟩
      (.stmt (.assign [.name "x"] (.constant (.int "0"))))
      ((Scope.start mode).push .classBody) _ _ :=
    .assign rfl (.targetsCons rfl .targetsNil)
  refine ⟨_, _, .blockCons own (.blockCons (.functionDef rfl rfl .nil
    (.blockCons (.assign rfl (.targetsCons rfl .targetsNil)) .blockNil)) .blockNil), ?_⟩
  cases mode <;> rfl

end Berrify
