import Berrify.Proofs.Stmt.Blocks

/-!
# Each name is declared once in its body

The bodies of a script are the script itself, the classes and the functions; the lines of a body are
those of its own statements at any depth of branches, loops and handlers, without those of the
bodies inside of it (`Outline.own`, `Outline.bodies`).

`Obeys` goes through the roles of the lines of a body with the set of names declared so far : a
`var` line is for a name that is not declared, and an assignment without `var` to a name is for one
that is. With one scope for each body every body obeys (`Emits.obedient`), because the scope
declares a name exactly where a line of the body does. What this means for a body is put together in
`DeclaresOnce`.
-/

namespace Berrify

open Text Identifier

/-! ## Lines and bodies of an outline -/

namespace Outline

/-- The lines of a body without those of the bodies inside of it. -/
def own : Outline → List (String × Role)
  | nil => []
  | line text role rest => (text, role) :: rest.own
  | block inner rest => inner.own ++ rest.own
  | body _ _ rest => rest.own

/-- The bodies inside of a body, at any depth, with the names of their parameters. -/
def bodies : Outline → List (List String × Outline)
  | nil => []
  | line _ _ rest => rest.bodies
  | block inner rest => inner.bodies ++ rest.bodies
  | body params inner rest => (params, inner) :: inner.bodies ++ rest.bodies

/-- A property of all lines with their roles. -/
def All (p : String → Role → Prop) : Outline → Prop
  | nil => True
  | line text role rest => p text role ∧ rest.All p
  | block inner rest => inner.All p ∧ rest.All p
  | body _ inner rest => inner.All p ∧ rest.All p

@[simp] theorem own_append (o p : Outline) : (o ++ p).own = o.own ++ p.own := by
  change (o.append p).own = _
  induction o with
  | nil => rfl
  | line text role rest ih => simp [append, own, ih]
  | block inner rest _ ih => simp [append, own, ih]
  | body params inner rest _ ih => simp [append, own, ih]

@[simp] theorem bodies_append (o p : Outline) : (o ++ p).bodies = o.bodies ++ p.bodies := by
  change (o.append p).bodies = _
  induction o with
  | nil => rfl
  | line text role rest ih => simp [append, bodies, ih]
  | block inner rest _ ih => simp [append, bodies, ih]
  | body params inner rest _ ih => simp [append, bodies, ih]

theorem All.append {p : String → Role → Prop} {o q : Outline} (ho : o.All p) (hq : q.All p) :
    (o ++ q).All p := by
  change (o.append q).All p
  induction o with
  | nil => exact hq
  | line text role rest ih => exact ⟨ho.1, ih ho.2⟩
  | block inner rest _ ih => exact ⟨ho.1, ih ho.2⟩
  | body params inner rest _ ih => exact ⟨ho.1, ih ho.2⟩

theorem all_flat {p : String → Role → Prop} {texts : List String}
    (h : ∀ text ∈ texts, p text .other) : (flat texts).All p := by
  induction texts with
  | nil => trivial
  | cons text texts ih =>
    exact ⟨h text List.mem_cons_self, ih fun t ht => h t (List.mem_cons_of_mem text ht)⟩

theorem All.own {p : String → Role → Prop} {o : Outline} (h : o.All p) :
    ∀ line ∈ o.own, p line.1 line.2 := by
  induction o with
  | nil => simp [Outline.own]
  | line text role rest ih =>
    intro line hm
    rcases List.mem_cons.1 hm with rfl | hm
    · exact h.1
    · exact ih h.2 line hm
  | block inner rest ih₁ ih₂ =>
    intro line hm
    rcases List.mem_append.1 hm with hm | hm
    · exact ih₁ h.1 line hm
    · exact ih₂ h.2 line hm
  | body params inner rest _ ih => exact ih h.2

theorem All.bodies {p : String → Role → Prop} {o : Outline} (h : o.All p) :
    ∀ body ∈ o.bodies, body.2.All p := by
  induction o with
  | nil => simp [Outline.bodies]
  | line text role rest ih => exact ih h.2
  | block inner rest ih₁ ih₂ =>
    intro body hm
    rcases List.mem_append.1 hm with hm | hm
    · exact ih₁ h.1 body hm
    · exact ih₂ h.2 body hm
  | body params inner rest ih₁ ih₂ =>
    intro body hm
    rcases List.mem_append.1 hm with hm | hm
    · rcases List.mem_cons.1 hm with rfl | hm
      · exact h.1
      · exact ih₁ h.1 body hm
    · exact ih₂ h.2 body hm

/-- The roles of the lines of a body. -/
def roles (o : Outline) : List Role :=
  o.own.map (·.2)

end Outline

/-! ## Going through the lines of a body -/

namespace Role

/-- Whether a line may stand where certain names are declared. -/
def Allowed (declared : String → Bool) : Role → Prop
  | declares x => declared x = false
  | assigns (.name x) => declared x = true
  | _ => True

/-- The names declared behind a line. -/
def after (declared : String → Bool) : Role → String → Bool
  | declares x => fun y => y == x || declared y
  | introduces names => fun y => names.contains y || declared y
  | _ => declared

/-- Whether a line declares a name. -/
def isDeclarationOf (x : String) : Role → Bool
  | declares y => y == x
  | _ => false

/-- Whether a line makes a name known to its body, as a declaration or in another way. -/
def provides (x : String) : Role → Bool
  | declares y => y == x
  | introduces names => names.contains x
  | _ => false

end Role

/-- Each line may stand where it stands. -/
def Obeys (declared : String → Bool) : List Role → Prop
  | [] => True
  | role :: rest => role.Allowed declared ∧ Obeys (role.after declared) rest

/-- The names declared behind some lines. -/
def declaredAfter (declared : String → Bool) (roles : List Role) : String → Bool :=
  roles.foldl Role.after declared

theorem obeys_append {declared : String → Bool} {xs ys : List Role} :
    Obeys declared (xs ++ ys) ↔ Obeys declared xs ∧ Obeys (declaredAfter declared xs) ys := by
  induction xs generalizing declared with
  | nil => simp [Obeys, declaredAfter]
  | cons role xs ih => simp [Obeys, declaredAfter, ih, and_assoc]

theorem declaredAfter_append (declared : String → Bool) (xs ys : List Role) :
    declaredAfter declared (xs ++ ys) = declaredAfter (declaredAfter declared xs) ys :=
  List.foldl_append

theorem after_eq (declared : String → Bool) (role : Role) (x : String) :
    role.after declared x = (role.provides x || declared x) := by
  cases role with
  | declares y => simp [Role.after, Role.provides, eq_comm, Bool.beq_eq_decide_eq]
  | introduces names => rfl
  | assigns target => rfl
  | other => rfl

/-- A name is declared behind lines if it was before or one of them provides it. -/
theorem declaredAfter_eq (roles : List Role) (declared : String → Bool) (x : String) :
    declaredAfter declared roles x = (roles.any (·.provides x) || declared x) := by
  induction roles generalizing declared with
  | nil => rfl
  | cons role roles ih =>
    change declaredAfter (role.after declared) roles x = _
    rw [ih, after_eq, List.any_cons, Bool.or_left_comm, Bool.or_assoc]

/-- Once a name is declared, no line declares it again. -/
theorem not_declares_of_obeys {roles : List Role} {declared : String → Bool}
    (h : Obeys declared roles) {x : String} (hx : declared x = true) :
    ∀ role ∈ roles, role.isDeclarationOf x = false := by
  induction roles generalizing declared with
  | nil => simp
  | cons role roles ih =>
    intro r hr
    rcases List.mem_cons.1 hr with rfl | hr
    · cases r with
      | declares y =>
        have allowed : declared y = false := h.1
        rw [Role.isDeclarationOf, beq_eq_false_iff_ne]
        rintro rfl
        rw [hx] at allowed
        cases allowed
      | _ => rfl
    · exact ih h.2 (by rw [after_eq, hx, Bool.or_true]) r hr

/-- No name is declared twice. -/
theorem countP_declares_le {roles : List Role} {declared : String → Bool}
    (h : Obeys declared roles) (x : String) : roles.countP (·.isDeclarationOf x) ≤ 1 := by
  induction roles generalizing declared with
  | nil => simp
  | cons role roles ih =>
    rw [List.countP_cons]
    cases hr : role.isDeclarationOf x with
    | false => simpa using ih h.2
    | true =>
      have provided : role.after declared x = true := by
        rw [after_eq]
        cases role <;> simp_all [Role.isDeclarationOf, Role.provides]
      have later := not_declares_of_obeys h.2 provided
      have none : roles.countP (·.isDeclarationOf x) = 0 :=
        List.countP_eq_zero.2 fun r hm => by simp [later r hm]
      simp [none]

/-! ## Scopes -/

/-- Two frames declare the same names. -/
def Frame.Agrees (f g : Frame) : Prop :=
  ∀ x, g.declares x = f.declares x

theorem Frame.declares_declare (f : Frame) (name : String) (kind : Container) (x : String) :
    (f.declare name kind).declares x = (x == name || f.declares x) := by
  unfold Frame.declares Frame.declare
  rw [NameMap.get?_put]
  split
  · rename_i h
    simp [h]
  · rename_i h
    simp [h]

/-- Recording a kind declares nothing. -/
theorem Frame.declares_recordKind (f : Frame) (path : String) (kind : Container) (x : String) :
    (f.recordKind path kind).declares x = f.declares x := by
  unfold Frame.declares Frame.recordKind
  rw [NameMap.get?_put]
  split
  · rename_i h
    rw [beq_iff_eq] at h
    subst h
    cases f.bindings.get? x <;> rfl
  · rfl

namespace Scope

/-- A later state of the same body : the bodies around it declare what they did. -/
structure Within (s s' : Scope) : Prop where
  mode : s'.mode = s.mode
  outer : List.Forall₂ Frame.Agrees s.outer s'.outer

theorem agrees_refl (fs : List Frame) : List.Forall₂ Frame.Agrees fs fs :=
  List.forall₂_same.2 fun _ _ _ => rfl

theorem Within.refl (s : Scope) : s.Within s :=
  ⟨rfl, agrees_refl s.outer⟩

theorem Within.trans {s t u : Scope} (h : s.Within t) (h' : t.Within u) : s.Within u := by
  have compose : ∀ {fs gs hs : List Frame}, List.Forall₂ Frame.Agrees fs gs →
      List.Forall₂ Frame.Agrees gs hs → List.Forall₂ Frame.Agrees fs hs := by
    intro fs gs hs hfg
    induction hfg generalizing hs with
    | nil =>
      intro hgh
      cases hgh
      exact .nil
    | cons hab _ ih =>
      intro hgh
      cases hgh with
      | cons hbc hgh => exact .cons (fun x => (hbc x).trans (hab x)) (ih hgh)
  exact ⟨h'.mode.trans h.mode, compose h.outer h'.outer⟩

theorem within_declare (s : Scope) (name : String) (kind : Container) :
    s.Within (s.declare name kind) :=
  ⟨rfl, agrees_refl s.outer⟩

theorem declaresHere_declare (s : Scope) (name : String) (kind : Container) (x : String) :
    (s.declare name kind).declaresHere x = (x == name || s.declaresHere x) :=
  Frame.declares_declare s.current name kind x

theorem declaresHere_introduced (s : Scope) (name : String) (kind : Container) :
    (s.declare name kind).declaresHere = (Role.introduces [name]).after s.declaresHere := by
  funext x
  change _ = ([name].contains x || s.declaresHere x)
  rw [declaresHere_declare, List.contains_cons, List.contains_nil, Bool.or_false]

theorem agrees_recordInClass? {path : String} {kind : Container} : ∀ {fs gs : List Frame},
    recordInClass? path kind fs = some gs → List.Forall₂ Frame.Agrees fs gs
  | [], _, h => by simp [recordInClass?] at h
  | f :: fs, gs, h => by
    unfold recordInClass? at h
    split at h
    · cases h
      exact .cons (fun x => Frame.declares_recordKind f path kind x) (agrees_refl fs)
    · obtain ⟨hs, hr, rfl⟩ := Option.map_eq_some_iff.1 h
      exact .cons (fun _ => rfl) (agrees_recordInClass? hr)

/-- Recording a kind declares nothing anywhere. -/
theorem recordKind_within (s : Scope) (path : String) (kind : Container) :
    s.Within (s.recordKind path kind) ∧
      ∀ x, (s.recordKind path kind).declaresHere x = s.declaresHere x := by
  have here : s.Within (s.recordHere path kind) ∧
      ∀ x, (s.recordHere path kind).declaresHere x = s.declaresHere x :=
    ⟨⟨rfl, agrees_refl s.outer⟩, fun x => Frame.declares_recordKind s.current path kind x⟩
  unfold recordKind recordField
  split
  · split
    · exact here
    · split
      · rename_i outer ho
        exact ⟨⟨rfl, agrees_recordInClass? ho⟩, fun _ => rfl⟩
      · exact here
  · exact here

/-- An assignment to something other than a name declares nothing. -/
theorem assign_of_not_isBareName (s : Scope) {target : Expr} (kind : Container)
    (h : isBareName target = false) :
    (s.assign target kind).2 = .assign ∧ s.Within (s.assign target kind).1 ∧
      ∀ x, (s.assign target kind).1.declaresHere x = s.declaresHere x := by
  have same : AssignmentForm.assign = .assign ∧ s.Within s ∧
      ∀ x, s.declaresHere x = s.declaresHere x := ⟨rfl, .refl s, fun _ => rfl⟩
  unfold assign
  split
  · cases h
  · split
    · rename_i path _
      exact ⟨rfl, s.recordKind_within path kind⟩
    · exact same
  · exact same

/-- An assignment line may stand where it stands, and behind it the scope declares what the line
says. -/
theorem assign_allowed (s : Scope) (target : Expr) (kind : Container) :
    (assignmentRole (s.assign target kind).2 target).Allowed s.declaresHere ∧
      s.Within (s.assign target kind).1 ∧
      (s.assign target kind).1.declaresHere =
        (assignmentRole (s.assign target kind).2 target).after s.declaresHere := by
  cases hb : isBareName target with
  | false =>
    obtain ⟨hform, hwithin, hsame⟩ := s.assign_of_not_isBareName kind hb
    rw [hform]
    cases target <;> first | exact ⟨trivial, hwithin, funext hsame⟩ | cases hb
  | true =>
    obtain ⟨id, rfl⟩ := exists_of_isBareName hb
    refine ⟨?_, s.within_declare id kind, ?_⟩
    · cases hd : s.declaresHere id with
      | true => simp [assign, hd, assignmentRole, Role.Allowed]
      | false => simp [assign, hd, assignmentRole, Role.Allowed]
    · funext x
      change (s.declare id kind).declaresHere x = _
      rw [declaresHere_declare]
      cases hd : s.declaresHere id with
      | true =>
        simp only [assign, hd, if_true, assignmentRole, Role.after]
        cases hx : x == id with
        | true => rw [beq_iff_eq.1 hx, hd, Bool.or_true]
        | false => rw [Bool.false_or]
      | false => simp [assign, hd, assignmentRole, Role.after]

theorem declareParams_within (naming : Naming) (params : List Param) (s : Scope) :
    s.Within (declareParams naming params s) ∧
      ∀ x, (declareParams naming params s).declaresHere x =
        ((params.map (·.name)).contains x || s.declaresHere x) := by
  unfold declareParams
  induction params generalizing s with
  | nil => exact ⟨.refl s, fun _ => rfl⟩
  | cons param params ih =>
    obtain ⟨hwithin, hdeclared⟩ := ih (s.declare param.name (param.container naming))
    refine ⟨(s.within_declare _ _).trans hwithin, fun x => ?_⟩
    rw [List.foldl_cons, hdeclared, declaresHere_declare, List.map_cons, List.contains_cons,
      Bool.or_left_comm, Bool.or_assoc]

theorem declareGlobals_within (names : List String) (s : Scope) :
    s.Within (declareGlobals names s) ∧
      ∀ x, (declareGlobals names s).declaresHere x = (names.contains x || s.declaresHere x) := by
  unfold declareGlobals
  induction names generalizing s with
  | nil => exact ⟨.refl s, fun _ => rfl⟩
  | cons name names ih =>
    obtain ⟨hwithin, hdeclared⟩ := ih (s.declare name (s.kindOf name))
    refine ⟨(s.within_declare _ _).trans hwithin, fun x => ?_⟩
    rw [List.foldl_cons, hdeclared, declaresHere_declare, List.contains_cons, Bool.or_left_comm,
      Bool.or_assoc]

/-- Behind a body, the scope is back where it was before it. -/
theorem within_pop {s s' : Scope} {kind : FrameKind} (hmode : s.mode = .lexical)
    (h : (s.push kind).Within s') :
    s.Within s'.pop ∧ ∀ x, s'.pop.declaresHere x = s.declaresHere x := by
  have pushed : s.push kind = { s with current := { kind }, outer := s.current :: s.outer } := by
    rw [push, hmode]
  have outer := h.outer
  rw [pushed] at outer
  have mode : s'.mode = .lexical := by
    rw [h.mode, pushed]
    exact hmode
  cases houter : s'.outer with
  | nil =>
    rw [houter] at outer
    cases outer
  | cons frame rest =>
    rw [houter] at outer
    cases outer with
    | cons hframe hrest =>
      have popped : s'.pop = { s' with current := frame, outer := rest } := by
        rw [pop, mode, houter]
      rw [popped]
      exact ⟨⟨mode.trans hmode.symm, hrest⟩, hframe⟩

theorem declaresHere_push {s : Scope} (hmode : s.mode = .lexical) (kind : FrameKind) (x : String) :
    (s.push kind).declaresHere x = false := by
  rw [push, hmode]
  rfl

end Scope

/-! ## Every part of a script -/

/-- An outline whose lines obey, from one scope to another that declares what its lines do, and
whose bodies obey from the names of their parameters. -/
structure Obedient (s s' : Scope) (o : Outline) : Prop where
  within : s.Within s'
  obeys : Obeys s.declaresHere o.roles
  declared : s'.declaresHere = declaredAfter s.declaresHere o.roles
  bodies : ∀ body ∈ o.bodies, Obeys body.1.contains body.2.roles

namespace Obedient

variable {s t u : Scope} {o p : Outline}

theorem nil (s : Scope) : Obedient s s .nil :=
  ⟨.refl s, trivial, rfl, by simp [Outline.bodies]⟩

theorem line {text : String} {role : Role} (hrole : role.Allowed s.declaresHere)
    (hwithin : s.Within t) (hdeclared : t.declaresHere = role.after s.declaresHere)
    (h : Obedient t u o) : Obedient s u (.line text role o) := by
  refine ⟨hwithin.trans h.within, ⟨hrole, ?_⟩, ?_, h.bodies⟩
  · rw [← hdeclared]
    exact h.obeys
  · rw [h.declared, hdeclared]
    rfl

/-- A line that leaves the names alone. -/
theorem other {text : String} (h : Obedient s t o) : Obedient s t (.line text .other o) :=
  h.line trivial (.refl s) rfl

theorem append (h : Obedient s t o) (h' : Obedient t u p) : Obedient s u (o ++ p) := by
  have roles : (o ++ p).roles = o.roles ++ p.roles := by
    rw [Outline.roles, Outline.own_append, List.map_append, Outline.roles, Outline.roles]
  refine ⟨h.within.trans h'.within, ?_, ?_, fun body hm => ?_⟩
  · rw [roles, obeys_append, ← h.declared]
    exact ⟨h.obeys, h'.obeys⟩
  · rw [roles, declaredAfter_append, ← h.declared, h'.declared]
  · rw [Outline.bodies_append] at hm
    rcases List.mem_append.1 hm with hm | hm
    · exact h.bodies body hm
    · exact h'.bodies body hm

theorem block (h : Obedient s t o) (h' : Obedient t u p) : Obedient s u (.block o p) := by
  have both := h.append h'
  have roles : (Outline.block o p).roles = (o ++ p).roles := by
    rw [Outline.roles, Outline.own, Outline.roles, Outline.own_append]
  refine ⟨both.within, ?_, ?_, fun body hm => both.bodies body ?_⟩
  · rw [roles]
    exact both.obeys
  · rw [roles]
    exact both.declared
  · rw [Outline.bodies_append]
    exact hm

/-- A body obeys from the names of its parameters, and the lines behind it go on where it began. -/
theorem body {start s' : Scope} {kind : FrameKind} {params : List String}
    (hmode : s.mode = .lexical) (hstart : (s.push kind).Within start)
    (hparams : ∀ x, start.declaresHere x = params.contains x) (h : Obedient start s' o) :
    Obedient s s'.pop (.body params o .closing) := by
  obtain ⟨hwithin, hsame⟩ := Scope.within_pop hmode (hstart.trans h.within)
  refine ⟨hwithin, ⟨trivial, trivial⟩, funext hsame, fun body hm => ?_⟩
  have hm' : body ∈ (params, o) :: o.bodies := by
    simpa [Outline.bodies, Outline.closing, Outline.only] using hm
  rcases List.mem_cons.1 hm' with rfl | hm
  · have named : start.declaresHere = params.contains := funext hparams
    rw [← named]
    exact h.obeys
  · exact h.bodies body hm

theorem flat (s : Scope) (texts : List String) : Obedient s s (.flat texts) := by
  induction texts with
  | nil => exact .nil s
  | cons text texts ih => exact ih.other

theorem guards (s : Scope) (texts : List (String × String)) : Obedient s s (.guards texts) := by
  induction texts with
  | nil => exact .nil s
  | cons text texts ih => exact .other (.block (.other (.nil s)) ih.other)

end Obedient

/-- Every part of a script obeys when each body has a scope of its own. -/
theorem Emits.obedient {site : Site} {phrase : Phrase} {s s' : Scope} {o : Outline}
    (h : Emits site phrase s s' o) (hmode : s.mode = .lexical) : Obedient s s' o := by
  induction h with
  | @classDef site name bases body s s' header o _ _ ih =>
    have pushed : (s.push .classBody).mode = .lexical := by rw [Scope.push, hmode]
    refine .other (.body hmode (.refl _) (fun x => ?_) ((Obedient.flat _ _).append (ih pushed)))
    rw [Scope.declaresHere_push hmode]
    rfl
  | @functionDef site name params _ body s s' isStatic texts o _ _ _ _ ih =>
    have defined : (s.define name).mode = .lexical := hmode
    obtain ⟨hwithin, hdeclared⟩ := Scope.declareParams_within site.style.naming
      (writtenParams site isStatic params) ((s.define name).push .functionBody)
    have mode : (functionScope site s name (writtenParams site isStatic params)).mode =
        .lexical := by
      rw [functionScope, hwithin.mode, Scope.push, defined]
    have inner := (Obedient.guards _ texts).append (ih mode)
    have body := Obedient.body defined hwithin (fun x => by
      rw [hdeclared, Scope.declaresHere_push defined, Bool.or_false]) inner
    exact .other ⟨⟨body.within.mode, body.within.outer⟩, body.obeys, body.declared, body.bodies⟩
  | assign _ _ ih => exact ih hmode
  | declareValue _ _ =>
    obtain ⟨hallowed, hwithin, hdeclared⟩ := Scope.assign_allowed _ _ _
    exact .line hallowed hwithin hdeclared (.nil _)
  | @declareFirst site id hint s hd =>
    exact .line hd (s.within_declare _ _) (funext (s.declaresHere_declare _ _)) (.nil _)
  | declareAgain _ => exact .nil _
  | @declareField site target hint s text hb _ =>
    obtain ⟨-, hwithin, hsame⟩ := s.assign_of_not_isBareName (.ofHint site.style.naming hint) hb
    exact ⟨hwithin, trivial, funext hsame, by simp [Outline.bodies]⟩
  | update _ _ _ => exact .other (.nil _)
  | branch _ _ _ ih₁ ih₂ =>
    have first := ih₁ hmode
    have second := ih₂ (first.within.mode.trans hmode)
    exact .other (.block first (second.append (.other (.nil _))))
  | @forEach site target iter body orelse s s' key header o _ _ ih =>
    have inner := ih hmode
    exact .line trivial (s.within_declare key .unknown) (s.declaresHere_introduced key .unknown)
      (.block inner (.other (.nil _)))
  | whileLoop _ _ _ ih₁ ih₂ =>
    have first := ih₁ hmode
    have second := ih₂ (first.within.mode.trans hmode)
    exact .other (.block first (second.append (.other (.nil _))))
  | attempt _ _ _ ih₁ ih₂ ih₃ =>
    have first := ih₁ hmode
    have second := ih₂ (first.within.mode.trans hmode)
    have third := ih₃ (second.within.mode.trans (first.within.mode.trans hmode))
    exact .other (.block first ((second.append third).append (.other (.nil _))))
  | leave => exact .other (.nil _)
  | giveBack _ => exact .other (.nil _)
  | docText => exact .nil _
  | expr _ _ => exact .other (.nil _)
  | pass => exact .nil _
  | leaveLoop => exact .other (.nil _)
  | nextRound => exact .other (.nil _)
  | importNames _ => exact .flat _ _
  | @globalNames site names s =>
    obtain ⟨hwithin, hdeclared⟩ := Scope.declareGlobals_within names s
    exact .line trivial hwithin (funext hdeclared) (.nil _)
  | blockNil => exact .nil _
  | blockCons _ _ ih₁ ih₂ =>
    have first := ih₁ hmode
    exact first.append (ih₂ (first.within.mode.trans hmode))
  | otherwiseElif _ _ _ ih₁ ih₂ =>
    have first := ih₁ hmode
    exact .other (.block first (ih₂ (first.within.mode.trans hmode)))
  | otherwiseElse _ _ ih => exact ih hmode
  | clauseNil => exact .nil _
  | clauseCons _ _ ih => exact .other (.block (ih hmode) (.nil _))
  | handlersNil => exact .nil _
  | handlersBare _ _ ih₁ ih₂ =>
    have first := ih₁ hmode
    exact .other (.block first (ih₂ (first.within.mode.trans hmode)))
  | @handlersNamed site caught name body rest s s₁ s₂ o₁ o₂ _ _ ih₁ ih₂ =>
    have first := ih₁ hmode
    exact .line trivial (s.within_declare name .unknown) (s.declaresHere_introduced name .unknown)
      (.block first (ih₂ (first.within.mode.trans hmode)))
  | targetsNil => exact .nil _
  | targetsCons _ _ ih =>
    obtain ⟨hallowed, hwithin, hdeclared⟩ := Scope.assign_allowed _ _ _
    exact .line hallowed hwithin hdeclared (ih (hwithin.mode.trans hmode))

/-! ## Declarations as text -/

/-- Whether a line is a `var` line for a name, with or without a value. -/
def isVarLine (x text : String) : Bool :=
  text == "var " ++ x || startsWith ("var " ++ x ++ " = ") text

theorem exists_of_isVarLine {x text : String} (h : isVarLine x text = true) :
    ∃ tail, Apart tail ∧ text.toList = "var ".toList ++ (x.toList ++ tail) := by
  rw [isVarLine, Bool.or_eq_true] at h
  rcases h with h | h
  · rw [beq_iff_eq] at h
    exact ⟨[], apart_nil, by simp [h]⟩
  · obtain ⟨rest, hr⟩ := startsWith_eq_true h
    exact ⟨' ' :: '=' :: ' ' :: rest, apart_cons (by decide), by simp [hr]⟩

theorem leadWord_of_isVarLine {x text : String} (h : isVarLine x text = true) :
    leadWord text = "var".toList := by
  obtain ⟨tail, -, ht⟩ := exists_of_isVarLine h
  have shape : text.toList = "var".toList ++ ' ' :: (x.toList ++ tail) := by simp [ht]
  rw [leadWord, shape, takeWhile_append_of_apart (apart_cons (by decide))]
  decide

/-- A line that takes part in the block structure declares nothing. -/
theorem not_isVarLine_of_lineKind {x text : String} (h : lineKind text ≠ .plain) :
    isVarLine x text = false := by
  rw [Bool.eq_false_iff]
  intro hv
  refine h (lineKind_of_leadWord ?_)
  rw [leadWord_of_isVarLine hv]
  decide

/-- A line under another keyword declares nothing. -/
theorem not_isVarLine_word {lead word : String} (hlead : lead = word ++ " ")
    (hword : isWord word = true) (hne : word ≠ "var") (x rest : String) :
    isVarLine x (lead ++ rest) = false := by
  rw [Bool.eq_false_iff]
  intro hv
  have front := leadWord_of_isVarLine hv
  have apart : Apart (" " ++ rest).toList := by
    rw [String.toList_append]
    exact apart_cons (by decide)
  rw [hlead, String.append_assoc, leadWord_append apart, leadWord_of_isWord hword] at front
  exact hne (String.toList_injective front)

/-- A tidy line declares nothing, for its first word is not followed by a second one. -/
theorem not_isVarLine_of_tidy {x text : String} (hx : isWord x = true) (h : Tidy text) :
    isVarLine x text = false := by
  rw [Bool.eq_false_iff]
  intro hv
  obtain ⟨tail, -, ht⟩ := exists_of_isVarLine hv
  obtain ⟨word, rest, hshape, hword, -, hbehind⟩ := h.front
  have first : word = "var".toList := by
    have lead := leadWord_of_isVarLine hv
    rwa [leadWord, hshape, takeWhile_append_of_apart hbehind.apart,
      List.takeWhile_eq_self_iff.2 hword] at lead
  have second : rest = ' ' :: (x.toList ++ tail) := by
    rw [hshape, first] at ht
    simpa using ht
  obtain ⟨-, d, hd, hname⟩ := (hbehind ' ' _ second).2 rfl
  have part : isNamePart d = true := by
    cases hxl : x.toList with
    | nil => exact absurd hxl (toList_ne_nil_of_isWord hx)
    | cons c more =>
      rw [hxl] at hd
      cases hd
      exact all_isNamePart_of_isWord hx _ (by simp [hxl])
  rw [hname] at part
  cases part

/-- A `var` line declares the name that stands in it. -/
theorem eq_of_isVarLine {x id tail : String} (hx : isWord x = true) (hid : isWord id = true)
    (htail : Apart tail.toList) (h : isVarLine x ("var " ++ id ++ tail) = true) : id = x := by
  obtain ⟨rest, hrest, hshape⟩ := exists_of_isVarLine h
  have same : id.toList ++ tail.toList = x.toList ++ rest := by simpa using hshape
  have front := congrArg (List.takeWhile isNamePart) same
  rw [takeWhile_append_of_apart htail, takeWhile_append_of_apart hrest,
    List.takeWhile_eq_self_iff.2 (all_isNamePart_of_isWord hid),
    List.takeWhile_eq_self_iff.2 (all_isNamePart_of_isWord hx)] at front
  exact String.toList_injective front

/-- The text of a line that declares or assigns to a name. -/
def Shaped (text : String) : Role → Prop
  | .declares x => text = "var " ++ x ∨ ∃ value, text = "var " ++ x ++ " = " ++ value
  | .assigns (.name x) => ∃ value, text = x ++ " = " ++ value
  | _ => True

theorem shaped_assignment {view : View} {target : Expr} {text : String}
    (h : renderTarget view target = .ok text) (s : Scope) (kind : Container) (value : String) :
    Shaped (assignmentLine (s.assign target kind).2 text value)
      (assignmentRole (s.assign target kind).2 target) := by
  cases hb : isBareName target with
  | false =>
    rw [(s.assign_of_not_isBareName kind hb).1]
    cases target <;> trivial
  | true =>
    obtain ⟨id, rfl⟩ := exists_of_isBareName hb
    cases h
    cases (s.assign (.name text) kind).2 with
    | declare => exact .inr ⟨value, rfl⟩
    | assign => exact ⟨value, rfl⟩

/-- Lines that declare or assign say so. -/
theorem Emits.shaped {site : Site} {phrase : Phrase} {s s' : Scope} {o : Outline}
    (h : Emits site phrase s s' o) : o.All Shaped := by
  have closing : Outline.closing.All Shaped := ⟨trivial, trivial⟩
  have guards (texts : List (String × String)) : (Outline.guards texts).All Shaped := by
    induction texts with
    | nil => trivial
    | cons text texts ih => exact ⟨trivial, ⟨trivial, trivial⟩, trivial, ih⟩
  induction h with
  | classDef _ _ ih => exact ⟨trivial, (Outline.all_flat fun _ _ => trivial).append ih, closing⟩
  | functionDef _ _ _ _ ih => exact ⟨trivial, (guards _).append ih, closing⟩
  | assign _ _ ih => exact ih
  | declareValue _ ht => exact ⟨shaped_assignment ht _ _ _, trivial⟩
  | declareFirst _ => exact ⟨.inl rfl, trivial⟩
  | branch _ _ _ ih₁ ih₂ => exact ⟨trivial, ih₁, ih₂.append closing⟩
  | forEach _ _ ih => exact ⟨trivial, ih, closing⟩
  | whileLoop _ _ _ ih₁ ih₂ => exact ⟨trivial, ih₁, ih₂.append closing⟩
  | attempt _ _ _ ih₁ ih₂ ih₃ => exact ⟨trivial, ih₁, (ih₂.append ih₃).append closing⟩
  | update _ _ _ | leave | giveBack _ | expr _ _ | leaveLoop | nextRound | globalNames =>
    exact ⟨trivial, trivial⟩
  | importNames _ => exact Outline.all_flat fun _ _ => trivial
  | blockCons _ _ ih₁ ih₂ => exact ih₁.append ih₂
  | otherwiseElif _ _ _ ih₁ ih₂ => exact ⟨trivial, ih₁, ih₂⟩
  | otherwiseElse _ _ ih => exact ih
  | clauseCons _ _ ih => exact ⟨trivial, ih, trivial⟩
  | handlersBare _ _ ih₁ ih₂ => exact ⟨trivial, ih₁, ih₂⟩
  | handlersNamed _ _ ih₁ ih₂ => exact ⟨trivial, ih₁, ih₂⟩
  | targetsCons ht _ ih => exact ⟨shaped_assignment ht _ _ _, ih⟩
  | declareAgain _ | declareField _ _ | docText | pass | blockNil | clauseNil | handlersNil
  | targetsNil => trivial

/-- A line that reads as a `var` line for a name declares it. -/
def Honest (text : String) (role : Role) : Prop :=
  ∀ x, isWord x = true → isVarLine x text = true → role = .declares x

theorem honest_of_lineKind {text : String} {role : Role} (h : lineKind text ≠ .plain) :
    Honest text role := by
  intro x _ hv
  rw [not_isVarLine_of_lineKind h] at hv
  cases hv

theorem honest_of_tidy {text : String} {role : Role} (h : Tidy text) : Honest text role := by
  intro x hx hv
  rw [not_isVarLine_of_tidy hx h] at hv
  cases hv

theorem honest_word {lead word : String} {role : Role} (hlead : lead = word ++ " ")
    (hword : isWord word = true) (hne : word ≠ "var") (rest : String) :
    Honest (lead ++ rest) role := by
  intro x _ hv
  rw [not_isVarLine_word hlead hword hne] at hv
  cases hv

theorem honest_opening {lead : String} {role : Role} (h : lead ∈ openings) (rest : String) :
    Honest (lead ++ rest) role :=
  honest_of_lineKind (by rw [lineKind_opening h]; decide)

/-- An assignment line is honest if it is without `var`, for with `var` it declares its target. -/
theorem honest_assignmentLine {view : View} {target : Expr} {text value : String}
    (h : renderTarget view target = .ok text)
    (hline : ∀ role, Honest (text ++ " = " ++ value) role)
    (hword : ∀ id, target = .name id → isWord id = true) (s : Scope) (kind : Container) :
    Honest (assignmentLine (s.assign target kind).2 text value)
      (assignmentRole (s.assign target kind).2 target) := by
  cases hb : isBareName target with
  | false =>
    rw [(s.assign_of_not_isBareName kind hb).1]
    exact hline _
  | true =>
    obtain ⟨id, rfl⟩ := exists_of_isBareName hb
    cases h
    cases (s.assign (.name text) kind).2 with
    | assign => exact hline _
    | declare =>
      intro x hx hvar
      have tail : Apart (" = " ++ value).toList := by
        rw [String.toList_append]
        exact apart_cons (by decide)
      rw [assignmentLine, String.append_assoc] at hvar
      exact congrArg Role.declares (eq_of_isVarLine hx (hword text rfl) tail hvar)

theorem honest_assignment {view : View} (hn : view.naming.WellNamed) {target : Expr}
    (hw : target.WellNamed) {text : String} (h : renderTarget view target = .ok text) (s : Scope)
    (kind : Container) {value : String} (hv : OneLine value) :
    Honest (assignmentLine (s.assign target kind).2 text value)
      (assignmentRole (s.assign target kind).2 target) := by
  obtain ⟨tidy, hne⟩ := tidy_renderTarget hn hw h
  refine honest_assignmentLine h (fun _ => honest_of_tidy (tidy.assigned hne hv)) ?_ s kind
  rintro id rfl
  exact isWord_of_isPlainName hw.here

theorem honest_guards {view : View} (hn : view.naming.WellNamed) {given : List (String × Expr)}
    {texts : List (String × String)}
    (h : List.Forall₂ (fun given text => given.1 = text.1 ∧ given.2.render view = .ok text.2)
      given texts)
    (hw : ∀ g ∈ given, isPlainName g.1 = true ∧ g.2.WellNamed) :
    (Outline.guards texts).All Honest := by
  induction h with
  | nil => trivial
  | @cons g text given texts hg _ ih =>
    obtain ⟨name, value⟩ := text
    obtain ⟨rfl, hv⟩ := hg
    obtain ⟨hname, hvalue⟩ := hw g List.mem_cons_self
    have default : Tidy (g.1 ++ " = " ++ value) :=
      (tidy_of_isPlainName hname).assigned (ne_empty_of_isPlainName hname)
        (tidy_render hn hvalue hv).oneLine
    have test : Honest ("if " ++ g.1 ++ " == nil") .other := by
      rw [String.append_assoc]
      exact honest_opening (by decide) _
    exact ⟨test, ⟨honest_of_tidy default, trivial⟩, honest_of_lineKind (by decide),
      ih fun g' hm => hw g' (List.mem_cons_of_mem g hm)⟩

/-- Only declarations read as such, if names are names and no line lists the fields of a class. -/
theorem Emits.honest {site : Site} {phrase : Phrase} {s s' : Scope} {o : Outline}
    (h : Emits site phrase s s' o) (hn : site.style.naming.WellNamed)
    (hmembers : site.style.declareMembers = false) (hw : phrase.WellNamed) : o.All Honest := by
  have closing : Outline.closing.All Honest := ⟨honest_of_lineKind (by decide), trivial⟩
  induction h with
  | @classDef site name bases body s s' header o hh _ ih =>
    simp only [Phrase.WellNamed, Stmt.WellNamed] at hw
    obtain ⟨rest, rfl, -⟩ := exists_classHeader hn hw.1 hw.2.1 hh
    have members : memberTexts site.style body = [] := by simp [memberTexts, hmembers]
    refine ⟨honest_opening (by decide) _, ?_, closing⟩
    rw [members]
    exact ih hn hmembers hw.2.2
  | @functionDef site name params decorators body s s' isStatic texts o _ _ hg _ ih =>
    simp only [Phrase.WellNamed, Stmt.WellNamed] at hw
    have own := wellNamed_writtenParams site isStatic hw.2.1
    obtain ⟨lead, rest, hlead, hheader, -⟩ :=
      exists_functionHeader (isStatic && site.body == .classBody) (hn.specialName hw.1) own
    refine ⟨hheader ▸ honest_opening hlead rest, ?_, closing⟩
    exact (honest_guards hn hg (wellNamed_defaults own)).append (ih hn hmembers hw.2.2)
  | assign ht _ ih =>
    simp only [Phrase.WellNamed, Stmt.WellNamed] at hw
    exact ih hn hmembers ⟨(tidy_render hn hw.2 ht).oneLine, hw.1⟩
  | declareValue hg ht =>
    simp only [Phrase.WellNamed, Stmt.WellNamed] at hw
    exact ⟨honest_assignment hn hw.1 ht _ _ (tidy_render hn (hw.2 _ rfl) hg).oneLine, trivial⟩
  | @declareFirst site id hint s _ =>
    simp only [Phrase.WellNamed, Stmt.WellNamed] at hw
    refine ⟨fun x hx hv => ?_, trivial⟩
    have tail : Apart "".toList := by simp [Apart]
    have hv' : isVarLine x ("var " ++ id ++ "") = true := by simpa using hv
    exact congrArg Role.declares (eq_of_isVarLine hx (isWord_of_isPlainName hw.1.here) tail hv')
  | update ht hop hg =>
    simp only [Phrase.WellNamed, Stmt.WellNamed] at hw
    obtain ⟨target, hne⟩ := tidy_renderTarget hn hw.1 ht
    have line := target.between hne (isSymbolic_update hop) (tidy_render hn hw.2 hg).oneLine
    refine ⟨honest_of_tidy ?_, trivial⟩
    simpa [String.append_assoc] using line
  | branch _ _ _ ih₁ ih₂ =>
    simp only [Phrase.WellNamed, Stmt.WellNamed] at hw
    exact ⟨honest_opening (by decide) _, ih₁ hn hmembers hw.2.1,
      (ih₂ hn hmembers hw.2.2).append closing⟩
  | forEach hh _ ih =>
    simp only [Phrase.WellNamed, Stmt.WellNamed] at hw
    obtain ⟨rest, rfl, -⟩ := exists_loopHeader hn hw.1 hw.2.1 hh
    exact ⟨honest_opening (by decide) _, ih hn hmembers hw.2.2.1, closing⟩
  | whileLoop _ _ _ ih₁ ih₂ =>
    simp only [Phrase.WellNamed, Stmt.WellNamed] at hw
    have clause := ih₂ hn hmembers ⟨by decide, ⟨by decide, by decide⟩, hw.2.2⟩
    exact ⟨honest_opening (by decide) _, ih₁ hn hmembers hw.2.1, clause.append closing⟩
  | attempt _ _ _ ih₁ ih₂ ih₃ =>
    simp only [Phrase.WellNamed, Stmt.WellNamed] at hw
    have clause := ih₃ hn hmembers ⟨by decide, ⟨by decide, by decide⟩, hw.2.2.2⟩
    exact ⟨honest_of_lineKind (by decide), ih₁ hn hmembers hw.1,
      ((ih₂ hn hmembers hw.2.1).append clause).append closing⟩
  | leave => exact ⟨honest_of_tidy (tidy_of_isPlainName (by decide)), trivial⟩
  | giveBack _ =>
    exact ⟨honest_word rfl (by decide : isWord "return" = true) (by decide) _, trivial⟩
  | expr _ ht => exact ⟨honest_of_tidy (tidy_render hn hw ht), trivial⟩
  | leaveLoop => exact ⟨honest_of_tidy (tidy_of_isPlainName (by decide)), trivial⟩
  | nextRound => exact ⟨honest_of_tidy (tidy_of_isPlainName (by decide)), trivial⟩
  | importNames _ =>
    refine Outline.all_flat fun text hm => ?_
    obtain ⟨imported, -, rfl⟩ := List.mem_map.1 hm
    unfold importText
    split
    · rw [String.append_assoc, String.append_assoc]
      exact honest_word rfl (by decide : isWord "import" = true) (by decide) _
    · exact honest_word rfl (by decide : isWord "import" = true) (by decide) _
  | globalNames =>
    exact ⟨honest_word rfl (by decide : isWord "global" = true) (by decide) _, trivial⟩
  | blockCons _ _ ih₁ ih₂ =>
    simp only [Phrase.WellNamed, BlockWellNamed] at hw
    exact (ih₁ hn hmembers hw.1).append (ih₂ hn hmembers hw.2)
  | otherwiseElif _ _ _ ih₁ ih₂ =>
    simp only [Phrase.WellNamed, BlockWellNamed, Stmt.WellNamed, and_true] at hw
    exact ⟨honest_of_lineKind (by rw [lineKind_elif]; decide), ih₁ hn hmembers hw.2.1,
      ih₂ hn hmembers hw.2.2⟩
  | otherwiseElse _ _ ih => exact ih hn hmembers ⟨by decide, ⟨by decide, by decide⟩, hw⟩
  | clauseCons _ _ ih =>
    simp only [Phrase.WellNamed] at hw
    exact ⟨honest_of_lineKind (by rw [hw.1]; decide), ih hn hmembers hw.2.2, trivial⟩
  | handlersBare _ _ ih₁ ih₂ =>
    simp only [Phrase.WellNamed, HandlersWellNamed] at hw
    exact ⟨honest_of_lineKind (by decide), ih₁ hn hmembers hw.2.1, ih₂ hn hmembers hw.2.2⟩
  | handlersNamed _ _ ih₁ ih₂ =>
    simp only [Phrase.WellNamed, HandlersWellNamed] at hw
    exact ⟨honest_of_lineKind (by rw [lineKind_except]; decide), ih₁ hn hmembers hw.2.1,
      ih₂ hn hmembers hw.2.2⟩
  | targetsCons ht _ ih =>
    simp only [Phrase.WellNamed, List.forall_mem_cons] at hw
    exact ⟨honest_assignment hn hw.2.1 ht _ _ hw.1, ih hn hmembers ⟨hw.1, hw.2.2⟩⟩
  | declareAgain _ | declareField _ _ | docText | pass | blockNil | clauseNil | handlersNil
  | targetsNil => trivial

/-! ## Bodies -/

/-- The lines of a body declare each name at most once, assign to it only when it is known, and do
not declare it behind a parameter, loop, handler or `global` line that introduces it. -/
structure DeclaresOnce (params : List String) (own : List (String × Role)) : Prop where
  once : ∀ x, own.countP (·.2.isDeclarationOf x) ≤ 1
  known : ∀ pre text x post, own = pre ++ (text, .assigns (.name x)) :: post →
    x ∈ params ∨ ∃ line ∈ pre, line.2.provides x = true
  parameter : ∀ x ∈ params, ∀ line ∈ own, line.2.isDeclarationOf x = false
  introduced : ∀ pre text names post, own = pre ++ (text, .introduces names) :: post →
    ∀ x ∈ names, ∀ line ∈ post, line.2.isDeclarationOf x = false

/-- A body that obeys from the names of its parameters declares once. -/
theorem declaresOnce_of_obeys {params : List String} {own : List (String × Role)}
    (h : Obeys params.contains (own.map (·.2))) : DeclaresOnce params own where
  once x := by
    have count := countP_declares_le h x
    rw [List.countP_map] at count
    exact count
  known pre text x post hown := by
    rw [hown, List.map_append, List.map_cons, obeys_append] at h
    have declared : declaredAfter params.contains (pre.map (·.2)) x = true := h.2.1
    rw [declaredAfter_eq, Bool.or_eq_true, List.any_map, List.any_eq_true] at declared
    rcases declared with ⟨line, hm, hp⟩ | hp
    · exact .inr ⟨line, hm, hp⟩
    · exact .inl (List.contains_iff_mem.1 hp)
  parameter x hx line hm :=
    not_declares_of_obeys h (List.contains_iff_mem.2 hx) line.2 (List.mem_map_of_mem hm)
  introduced pre text names post hown x hx line hm := by
    rw [hown, List.map_append, List.map_cons, obeys_append] at h
    refine not_declares_of_obeys h.2.2 ?_ line.2 (List.mem_map_of_mem hm)
    rw [after_eq, Role.provides, List.contains_iff_mem.2 hx, Bool.true_or]

/-- A line of a body reads as a `var` line for a name if and only if it declares it, so at most one
line of the body does. -/
structure ReadsAsDeclared (own : List (String × Role)) : Prop where
  declares : ∀ x, isWord x = true → ∀ line ∈ own, isVarLine x line.1 = true ↔ line.2 = .declares x
  once : ∀ x, isWord x = true → own.countP (isVarLine x ·.1) ≤ 1

theorem isVarLine_of_shaped {x text : String} (h : Shaped text (.declares x)) :
    isVarLine x text = true := by
  rw [isVarLine, Bool.or_eq_true]
  rcases h with rfl | ⟨value, rfl⟩
  · exact .inl (beq_self_eq_true _)
  · exact .inr (startsWith_append _ _)

theorem readsAsDeclared_of_honest {own : List (String × Role)}
    (hshaped : ∀ line ∈ own, Shaped line.1 line.2) (hhonest : ∀ line ∈ own, Honest line.1 line.2)
    (hcount : ∀ x, own.countP (·.2.isDeclarationOf x) ≤ 1) : ReadsAsDeclared own where
  declares x hx line hm := by
    refine ⟨hhonest line hm x hx, fun hrole => isVarLine_of_shaped ?_⟩
    exact hrole ▸ hshaped line hm
  once x hx := by
    refine Nat.le_trans (List.countP_mono_left fun line hm hv => ?_) (hcount x)
    rw [hhonest line hm x hx hv]
    exact beq_self_eq_true x

/-- In every body of a script each name is declared once : the lines of an emitted script fall into
those of its bodies, and these declare each name at most once and before it is assigned to. Where
names are names, this can be read off the text of the lines. -/
theorem one_declaration_per_body {style : Style} {script : Block} {text : String}
    (hmode : style.scopeMode = .lexical) (hmembers : style.declareMembers = false)
    (h : emitScript style script = .ok text) :
    ∃ s o, Emits ⟨style, .script⟩ (.block script) (.start style.scopeMode) s o ∧
      text = Line.joinAll o.lines ∧
      ∀ body ∈ ([], o) :: o.bodies, DeclaresOnce body.1 body.2.own ∧
        (∀ line ∈ body.2.own, Shaped line.1 line.2) ∧
        (style.naming.WellNamed → BlockWellNamed script → ReadsAsDeclared body.2.own) := by
  obtain ⟨s, o, ho, htext⟩ := emitScript_eq_ok h
  refine ⟨s, o, ho, htext, fun body hm => ?_⟩
  have obedient := ho.obedient hmode
  have obeys : Obeys body.1.contains body.2.roles := by
    rcases List.mem_cons.1 hm with rfl | hm
    · exact obedient.obeys
    · exact obedient.bodies body hm
  have shaped : body.2.All Shaped := by
    rcases List.mem_cons.1 hm with rfl | hm
    · exact ho.shaped
    · exact ho.shaped.bodies body hm
  have once := declaresOnce_of_obeys obeys
  refine ⟨once, shaped.own, fun hn hw => ?_⟩
  have honest : body.2.All Honest := by
    rcases List.mem_cons.1 hm with rfl | hm
    · exact ho.honest hn hmembers hw
    · exact (ho.honest hn hmembers hw).bodies body hm
  exact readsAsDeclared_of_honest shaped.own honest.own once.once

/-- A function that assigns twice to a name and once to its parameter. -/
theorem one_declaration_per_body_of_function :
    let one : Expr := .constant (.int "1")
    let script : Block := [⟨1, .functionDef "f" [{ name := "a" }] []
      [⟨2, .assign [.name "b", .name "a"] one⟩, ⟨3, .assign [.name "b"] (.name "a")⟩]⟩]
    ∃ text, emitScript {} script = .ok text ∧ ∃ o : Outline, text = Line.joinAll o.lines ∧
      ∀ body ∈ ([], o) :: o.bodies, DeclaresOnce body.1 body.2.own := by
  intro one script
  obtain ⟨text, run⟩ : ∃ text, emitScript {} script = .ok text := ⟨_, rfl⟩
  obtain ⟨-, o, -, htext, hbodies⟩ := one_declaration_per_body rfl rfl run
  exact ⟨text, run, o, htext, fun body hm => (hbodies body hm).1⟩

end Berrify
