import Berrify.Proofs.Success
import Mathlib.Data.List.Forall2

/-!
# How a statement is emitted

`Emits` lists the ways in which a part of a script can be emitted, one rule for each, with the scope
before and behind it. Besides the lines it keeps their `Outline` : which lines are nested in which,
where a body of its own begins, and what each line does to the names of its body (`Role`).

Every successful run of the emitter follows these rules (`Stmt.follows`, `emitBlock_follows`), and
the lines of the outline are the lines it returns. Properties of emitted scripts are then proved by
induction over `Emits`.
-/

namespace Berrify

/-! ## Outlines -/

/-- What a line does to the names of the body it stands in. -/
inductive Role where
  /-- A `var` line for a name. -/
  | declares (name : String)
  /-- An assignment without `var`. -/
  | assigns (target : Expr)
  /-- A loop, handler or `global` line, which introduces names. -/
  | introduces (names : List String)
  | other

/-- Lines with their nesting. -/
inductive Outline where
  | nil
  | line (text : String) (role : Role) (rest : Outline)
  /-- Lines one block deeper in the same body. -/
  | block (inner rest : Outline)
  /-- A class or function body with the names of its parameters. -/
  | body (params : List String) (inner rest : Outline)

namespace Outline

/-- The lines of an outline. -/
def lines : Outline → List Line
  | nil => []
  | line text _ rest => .flush text :: rest.lines
  | block inner rest => nested inner.lines ++ rest.lines
  | body _ inner rest => nested inner.lines ++ rest.lines

/-- One outline behind another. -/
def append : Outline → Outline → Outline
  | nil, o => o
  | line text role rest, o => line text role (rest.append o)
  | block inner rest, o => block inner (rest.append o)
  | body params inner rest, o => body params inner (rest.append o)

instance : Append Outline := ⟨append⟩

@[simp] theorem lines_append (o p : Outline) : (o ++ p).lines = o.lines ++ p.lines := by
  change (o.append p).lines = _
  induction o with
  | nil => rfl
  | line text role rest ih => simp [append, lines, ih]
  | block inner rest _ ih => simp [append, lines, ih]
  | body params inner rest _ ih => simp [append, lines, ih]

/-- A single line. -/
def only (text : String) (role : Role) : Outline :=
  line text role nil

/-- The line that closes a block. -/
def closing : Outline :=
  only "end" .other

/-- Lines that leave the names alone. -/
def flat : List String → Outline
  | [] => nil
  | text :: rest => line text .other (flat rest)

theorem lines_flat (texts : List String) : (flat texts).lines = texts.map .flush := by
  induction texts with
  | nil => rfl
  | cons text texts ih => rw [flat, lines, ih, List.map_cons]

/-- The guards of parameters, given by their names and the texts of their defaults. -/
def guards : List (String × String) → Outline
  | [] => nil
  | (name, value) :: rest =>
    line ("if " ++ name ++ " == nil") .other
      (block (only (name ++ " = " ++ value) .other) (line "end" .other (guards rest)))

end Outline

/-- The texts of the lines that declare the fields of a class : one or none. -/
def memberTexts (style : Style) (body : Block) : List String :=
  if style.declareMembers && !(memberFields body).isEmpty then
    ["var " ++ commaSeparated (memberFields body)]
  else []

theorem memberLine_eq (style : Style) (body : Block) :
    memberLine style body = (Outline.flat (memberTexts style body)).lines := by
  rw [Outline.lines_flat, memberLine, memberTexts]
  split <;> rfl

/-- The parameters with a default. -/
def defaults (params : List Param) : List (String × Expr) :=
  params.filterMap fun param => param.fallback.map (param.name, ·)

/-- The guards of a function are the texts of its defaults. -/
theorem emitGuards_eq_ok {view : View} {params : List Param} {lines : List Line} :
    emitGuards view params = .ok lines ↔ ∃ texts,
      List.Forall₂ (fun given text => given.1 = text.1 ∧ given.2.render view = .ok text.2)
        (defaults params) texts ∧ (Outline.guards texts).lines = lines := by
  induction params generalizing lines with
  | nil =>
    rw [emitGuards, pure_eq_ok]
    constructor
    · rintro rfl
      exact ⟨[], .nil, rfl⟩
    · rintro ⟨texts, h, rfl⟩
      cases h
      rfl
  | cons param params ih =>
    cases hf : param.fallback with
    | none =>
      have hd : defaults (param :: params) = defaults params := by
        rw [defaults, List.filterMap_cons, hf]
        rfl
      rw [emitGuards, hf, ih, hd]
    | some value =>
      rw [emitGuards, hf]
      simp only [bind_eq_ok, pure_eq_ok, ih]
      have hd : defaults (param :: params) = (param.name, value) :: defaults params := by
        rw [defaults, List.filterMap_cons, hf]
        rfl
      rw [hd]
      constructor
      · rintro ⟨text, ht, _, ⟨texts, htexts, rfl⟩, rfl⟩
        exact ⟨(param.name, text) :: texts, .cons ⟨rfl, ht⟩ htexts, rfl⟩
      · rintro ⟨_, _ | ⟨⟨hname, ht⟩, htexts⟩, rfl⟩
        rename_i given texts
        obtain ⟨name, text⟩ := given
        cases hname
        exact ⟨text, ht, _, ⟨texts, htexts, rfl⟩, rfl⟩

/-- The line of an import. -/
def importText (imported : ImportedName) : String :=
  match imported.boundAs with
  | some boundAs => "import " ++ imported.name ++ " as " ++ boundAs
  | none => "import " ++ imported.name

theorem emitImports_eq_ok {names : List ImportedName} {lines : List Line} :
    emitImports names = .ok lines ↔
      (∀ imported ∈ names, '.' ∉ imported.name.toList) ∧
        (Outline.flat (names.map importText)).lines = lines := by
  induction names generalizing lines with
  | nil => simp [emitImports, pure_eq_ok, Outline.flat, Outline.lines]
  | cons imported names ih =>
    by_cases hdot : '.' ∈ imported.name.toList
    · simp [emitImports, hdot, bind_eq_ok, throw_eq_ok]
    · simp only [emitImports, List.contains_iff_mem, hdot, if_false, bind_eq_ok, pure_eq_ok, ih,
        List.forall_mem_cons, not_false_eq_true, true_and, List.map_cons, Outline.flat,
        Outline.lines]
      constructor
      · rintro ⟨_, ⟨hall, rfl⟩, rfl⟩
        exact ⟨hall, rfl⟩
      · rintro ⟨hall, rfl⟩
        exact ⟨_, ⟨hall, rfl⟩, rfl⟩

/-- An assignment to a subscript has the container of the subscript as it stands alone. -/
theorem renderTarget_subscript_eq_ok {view : View} {value index : Expr} {text : String} :
    renderTarget view (.subscript value index) = .ok text ↔
      ∃ b, index.renderIndex view = .ok b ∧ ∃ a, value.render view = .ok a ∧
        a ++ "[" ++ b ++ "]" = text := by
  cases hi : index.renderIndex view with
  | ok b =>
    simp only [renderTarget, hi, pure_bind, bind_eq_ok, pure_eq_ok, Except.ok.injEq,
      exists_eq_left']
  | error cause => simp [renderTarget, hi, bind_eq_ok, throw_eq_ok]

/-- Whether a function in a class has no receiver. -/
def isDecoratedStatic (decorators : List Expr) : Bool :=
  decorators.any (·.isName "staticmethod")

/-- A function whose decorators are allowed has none but those that make it static. -/
theorem staticDecorators_of_ok {function : String} {decorators : List Expr} {isStatic : Bool}
    (h : staticDecorators function decorators = .ok isStatic) :
    isStatic = isDecoratedStatic decorators ∧
      ∀ decorator ∈ decorators, decorator = .name "staticmethod" := by
  induction decorators generalizing isStatic with
  | nil =>
    cases h
    exact ⟨rfl, by simp⟩
  | cons decorator rest ih =>
    unfold staticDecorators at h
    split at h
    · cases ‹_ = []›
    · rename_i heq
      cases heq
      simp only [bind_eq_ok, pure_eq_ok] at h
      obtain ⟨inner, hi, rfl⟩ := h
      have static : isDecoratedStatic (.name "staticmethod" :: rest) = true := by
        simp [isDecoratedStatic, Expr.isName]
      exact ⟨static.symm, List.forall_mem_cons.2 ⟨rfl, (ih hi).2⟩⟩
    · simp [throw_eq_ok] at h

theorem loopVariable_eq_ok {target : Expr} {key : String} :
    loopVariable target = .ok key ↔ target = .name key := by
  cases target <;> simp [loopVariable, pure_eq_ok, throw_eq_ok]

theorem loopReceiver_eq_ok {iter receiver : Expr} :
    loopReceiver iter = .ok receiver ↔
      ∃ keywords, iter = .call (.attribute receiver "keys") [] keywords := by
  constructor
  · intro h
    unfold loopReceiver at h
    split at h
    · cases h
      exact ⟨_, rfl⟩
    · simp [throw_eq_ok] at h
  · rintro ⟨keywords, rfl⟩
    rfl

/-- A loop goes through the keys of a map with a single variable. -/
theorem loopHeader_eq_ok {view : View} {target iter : Expr} {orelse : Block} {key header : String} :
    loopHeader view target iter orelse = .ok (key, header) ↔
      orelse = [] ∧ target = .name key ∧ ∃ receiver keywords,
        iter = .call (.attribute receiver "keys") [] keywords ∧
          ∃ text, receiver.render view = .ok text ∧
            "for " ++ key ++ " : " ++ text ++ ".keys()" = header := by
  cases orelse with
  | cons head rest => simp [loopHeader, bind_eq_ok, throw_eq_ok]
  | nil =>
    simp only [loopHeader, List.isEmpty_nil, if_true, bind_eq_ok, pure_eq_ok, loopVariable_eq_ok,
      loopReceiver_eq_ok, Prod.mk.injEq, true_and]
    constructor
    · rintro ⟨_, hk, receiver, ⟨keywords, hi⟩, text, ht, rfl, rfl⟩
      exact ⟨hk, receiver, keywords, hi, text, ht, rfl⟩
    · rintro ⟨hk, receiver, keywords, hi, text, ht, rfl⟩
      exact ⟨key, hk, receiver, ⟨keywords, hi⟩, text, ht, rfl, rfl⟩

/-- What an assignment line does : only a bare name is declared by it. -/
def assignmentRole : AssignmentForm → Expr → Role
  | .declare, .name id => .declares id
  | _, target => .assigns target

/-! ## Rules -/

/-- The parts of a script that the emitter goes through. -/
inductive Phrase where
  | stmt (stmt : Stmt)
  | block (block : Block)
  /-- What a branch does otherwise. -/
  | otherwise (block : Block)
  /-- A clause under a keyword, left out if its block is empty. -/
  | clause (keyword : String) (block : Block)
  | handlers (handlers : List (Handler Block))
  /-- The targets of an assignment, with the text and the kind of the value. -/
  | targets (value : String) (kind : Container) (targets : List Expr)

/-- Whether a block is a single branch, which continues the chain of tests of the branch before. -/
def isElif : Block → Bool
  | [⟨_, .branch ..⟩] => true
  | _ => false

/-- Whether a target is a bare name. -/
def isBareName : Expr → Bool
  | .name _ => true
  | _ => false

theorem exists_of_isBareName {target : Expr} (h : isBareName target = true) :
    ∃ id, target = .name id := by
  cases target <;> first | exact ⟨_, rfl⟩ | cases h

/-- Whether an expression is a string, which as a statement is a comment. -/
def isDocText : Expr → Bool
  | .constant (.str _) => true
  | _ => false

/-- The parameters of a function that are written, which leaves out the receiver of a method. -/
def writtenParams (site : Site) (isStatic : Bool) (params : List Param) : List Param :=
  ownParams (site.body == .classBody && !isStatic) params

/-- The scope at the start of a function body. -/
def functionScope (site : Site) (scope : Scope) (name : String) (params : List Param) : Scope :=
  declareParams site.style.naming params ((scope.define name).push .functionBody)

open Outline in
/-- The rules by which a part of a script is emitted, with the scope before and behind it. -/
inductive Emits : Site → Phrase → Scope → Scope → Outline → Prop where
  | classDef {site : Site} {name : String} {bases : List Expr} {body : Block} {s s' : Scope}
      {header : String} {o : Outline} :
      classHeader (site.view s) name bases = .ok header →
      Emits (site.within .classBody) (.block body) (s.push .classBody) s' o →
      Emits site (.stmt (.classDef name bases body)) s s'.pop
        (line header .other (.body [] (flat (memberTexts site.style body) ++ o) closing))
  | functionDef {site : Site} {name : String} {params : List Param} {decorators : List Expr}
      {body : Block} {s s' : Scope} {isStatic : Bool} {texts : List (String × String)}
      {o : Outline} :
      staticDecorators name decorators = .ok isStatic →
      checkParams (writtenParams site isStatic params) = .ok () →
      List.Forall₂ (fun given text => given.1 = text.1 ∧ given.2.render
          (site.view (functionScope site s name (writtenParams site isStatic params))) = .ok text.2)
        (defaults (writtenParams site isStatic params)) texts →
      Emits (site.within .functionBody) (.block body)
        (functionScope site s name (writtenParams site isStatic params)) s' o →
      Emits site (.stmt (.functionDef name params decorators body)) s s'.pop
        (line (functionHeader (isStatic && site.body == .classBody)
            (site.style.naming.specialName name) (writtenParams site isStatic params)) .other
          (.body ((writtenParams site isStatic params).map (·.name)) (guards texts ++ o) closing))
  | assign {site : Site} {targets : List Expr} {value : Expr} {s s' : Scope} {text : String}
      {o : Outline} :
      value.render (site.view s) = .ok text →
      Emits site (.targets text (.ofValue site.style.naming value) targets) s s' o →
      Emits site (.stmt (.assign targets value)) s s' o
  | declareValue {site : Site} {target hint value : Expr} {s : Scope} {text given : String} :
      value.render (site.view s) = .ok given →
      renderTarget (site.view s) target = .ok text →
      Emits site (.stmt (.declare target hint (some value))) s
        (s.assign target (declaredKind site.style.naming hint value)).1
        (only (assignmentLine (s.assign target (declaredKind site.style.naming hint value)).2 text
            given)
          (assignmentRole (s.assign target (declaredKind site.style.naming hint value)).2 target))
  | declareFirst {site : Site} {id : String} {hint : Expr} {s : Scope} :
      s.declaresHere id = false →
      Emits site (.stmt (.declare (.name id) hint none)) s
        (s.declare id (.ofHint site.style.naming hint)) (only ("var " ++ id) (.declares id))
  | declareAgain {site : Site} {id : String} {hint : Expr} {s : Scope} :
      s.declaresHere id = true →
      Emits site (.stmt (.declare (.name id) hint none)) s s nil
  | declareField {site : Site} {target hint : Expr} {s : Scope} {text : String} :
      isBareName target = false →
      renderTarget (site.view s) target = .ok text →
      Emits site (.stmt (.declare target hint none)) s
        (s.assign target (.ofHint site.style.naming hint)).1 nil
  | update {site : Site} {target value : Expr} {op : BinaryOp} {s : Scope}
      {text token given : String} :
      renderTarget (site.view s) target = .ok text → op.target? = some token →
      value.render (site.view s) = .ok given →
      Emits site (.stmt (.update target op value)) s s
        (only (text ++ " " ++ token ++ "= " ++ given) .other)
  | branch {site : Site} {test : Expr} {body orelse : Block} {s s₁ s₂ : Scope} {text : String}
      {o₁ o₂ : Outline} :
      test.renderCondition (site.view s) = .ok text →
      Emits site (.block body) s s₁ o₁ → Emits site (.otherwise orelse) s₁ s₂ o₂ →
      Emits site (.stmt (.branch test body orelse)) s s₂
        (line ("if " ++ text) .other (block o₁ (o₂ ++ closing)))
  | forEach {site : Site} {target iter : Expr} {body orelse : Block} {s s' : Scope}
      {key header : String} {o : Outline} :
      loopHeader (site.view s) target iter orelse = .ok (key, header) →
      Emits site (.block body) (s.declare key .unknown) s' o →
      Emits site (.stmt (.forEach target iter body orelse)) s s'
        (line header (.introduces [key]) (block o closing))
  | whileLoop {site : Site} {test : Expr} {body orelse : Block} {s s₁ s₂ : Scope} {text : String}
      {o₁ o₂ : Outline} :
      test.renderCondition (site.view s) = .ok text →
      Emits site (.block body) s s₁ o₁ → Emits site (.clause "else" orelse) s₁ s₂ o₂ →
      Emits site (.stmt (.whileLoop test body orelse)) s s₂
        (line ("while " ++ text) .other (block o₁ (o₂ ++ closing)))
  | attempt {site : Site} {body : Block} {handlers : List (Handler Block)} {cleanup : Block}
      {s s₁ s₂ s₃ : Scope} {o₁ o₂ o₃ : Outline} :
      Emits site (.block body) s s₁ o₁ → Emits site (.handlers handlers) s₁ s₂ o₂ →
      Emits site (.clause "finally" cleanup) s₂ s₃ o₃ →
      Emits site (.stmt (.attempt body handlers [] cleanup)) s s₃
        (line "try" .other (block o₁ (o₂ ++ o₃ ++ closing)))
  | leave {site : Site} {s : Scope} :
      Emits site (.stmt (.giveBack none)) s s (only "return" .other)
  | giveBack {site : Site} {value : Expr} {s : Scope} {text : String} :
      value.render (site.view s) = .ok text →
      Emits site (.stmt (.giveBack (some value))) s s (only ("return " ++ text) .other)
  | docText {site : Site} {text : String} {s : Scope} :
      Emits site (.stmt (.expr (.constant (.str text)))) s s nil
  | expr {site : Site} {value : Expr} {s : Scope} {text : String} :
      isDocText value = false → value.render (site.view s) = .ok text →
      Emits site (.stmt (.expr value)) s s (only text .other)
  | pass {site : Site} {s : Scope} : Emits site (.stmt .pass) s s nil
  | leaveLoop {site : Site} {s : Scope} :
      Emits site (.stmt .leaveLoop) s s (only "break" .other)
  | nextRound {site : Site} {s : Scope} :
      Emits site (.stmt .nextRound) s s (only "continue" .other)
  | importNames {site : Site} {names : List ImportedName} {s : Scope} :
      (∀ imported ∈ names, '.' ∉ imported.name.toList) →
      Emits site (.stmt (.importNames names)) s s (flat (names.map importText))
  | globalNames {site : Site} {names : List String} {s : Scope} :
      Emits site (.stmt (.globalNames names)) s (declareGlobals names s)
        (only ("global " ++ commaSeparated names) (.introduces names))
  | blockNil {site : Site} {s : Scope} : Emits site (.block []) s s nil
  | blockCons {site : Site} {n : Nat} {stmt : Stmt} {rest : Block} {s s₁ s₂ : Scope}
      {o₁ o₂ : Outline} :
      Emits site (.stmt stmt) s s₁ o₁ → Emits site (.block rest) s₁ s₂ o₂ →
      Emits site (.block (⟨n, stmt⟩ :: rest)) s s₂ (o₁ ++ o₂)
  | otherwiseElif {site : Site} {n : Nat} {test : Expr} {body orelse : Block} {s s₁ s₂ : Scope}
      {text : String} {o₁ o₂ : Outline} :
      test.renderCondition (site.view s) = .ok text →
      Emits site (.block body) s s₁ o₁ → Emits site (.otherwise orelse) s₁ s₂ o₂ →
      Emits site (.otherwise [⟨n, .branch test body orelse⟩]) s s₂
        (line ("elif " ++ text) .other (block o₁ o₂))
  | otherwiseElse {site : Site} {b : Block} {s s' : Scope} {o : Outline} :
      isElif b = false → Emits site (.clause "else" b) s s' o →
      Emits site (.otherwise b) s s' o
  | clauseNil {site : Site} {keyword : String} {s : Scope} :
      Emits site (.clause keyword []) s s nil
  | clauseCons {site : Site} {keyword : String} {b : Block} {s s' : Scope} {o : Outline} :
      b ≠ [] → Emits site (.block b) s s' o →
      Emits site (.clause keyword b) s s' (line keyword .other (block o nil))
  | handlersNil {site : Site} {s : Scope} : Emits site (.handlers []) s s nil
  | handlersBare {site : Site} {caught : Option Expr} {body : Block} {rest : List (Handler Block)}
      {s s₁ s₂ : Scope} {o₁ o₂ : Outline} :
      Emits site (.block body) s s₁ o₁ → Emits site (.handlers rest) s₁ s₂ o₂ →
      Emits site (.handlers (⟨caught, none, body⟩ :: rest)) s s₂
        (line "except .." .other (block o₁ o₂))
  | handlersNamed {site : Site} {caught : Option Expr} {name : String} {body : Block}
      {rest : List (Handler Block)} {s s₁ s₂ : Scope} {o₁ o₂ : Outline} :
      Emits site (.block body) (s.declare name .unknown) s₁ o₁ →
      Emits site (.handlers rest) s₁ s₂ o₂ →
      Emits site (.handlers (⟨caught, some name, body⟩ :: rest)) s s₂
        (line ("except .. as " ++ name) (.introduces [name]) (block o₁ o₂))
  | targetsNil {site : Site} {value : String} {kind : Container} {s : Scope} :
      Emits site (.targets value kind []) s s nil
  | targetsCons {site : Site} {value text : String} {kind : Container} {target : Expr}
      {rest : List Expr} {s s' : Scope} {o : Outline} :
      renderTarget (site.view s) target = .ok text →
      Emits site (.targets value kind rest) (s.assign target kind).1 s' o →
      Emits site (.targets value kind (target :: rest)) s s'
        (line (assignmentLine (s.assign target kind).2 text value)
          (assignmentRole (s.assign target kind).2 target) o)

/-! ## Every run follows the rules -/

/-- A run that returned follows the rules, and its lines are those of the outline. -/
def Follows (site : Site) (phrase : Phrase) (s : Scope) (r : Emitted) : Prop :=
  ∃ o, Emits site phrase s r.scope o ∧ o.lines = r.lines

theorem emitAssignment_eq_ok {site : Site} {s : Scope} {target : Expr} {value : String}
    {kind : Container} {r : Emitted} :
    emitAssignment site s target value kind = .ok r ↔
      ∃ text, renderTarget (site.view s) target = .ok text ∧
        .line (s.assign target kind).1
          (assignmentLine (s.assign target kind).2 text value) = r := by
  simp only [emitAssignment, bind_eq_ok, pure_eq_ok, orRefuse_eq_ok]

theorem emitAssignments_follows {site : Site} {value : String} {kind : Container} :
    ∀ {targets : List Expr} {s : Scope} {r : Emitted},
      emitAssignments site value kind targets s = .ok r →
        Follows site (.targets value kind targets) s r
  | [], s, r, h => by
    rw [emitAssignments, pure_eq_ok] at h
    subst h
    exact ⟨.nil, .targetsNil, rfl⟩
  | target :: rest, s, r, h => by
    simp only [emitAssignments, bind_eq_ok, pure_eq_ok, emitAssignment_eq_ok] at h
    obtain ⟨_, ⟨text, ht, rfl⟩, others, hothers, rfl⟩ := h
    obtain ⟨o, ho, hlines⟩ := emitAssignments_follows hothers
    exact ⟨_, .targetsCons ht ho, by rw [Outline.lines, hlines]; rfl⟩

theorem emitBareDeclaration_of_not_isBareName {site : Site} {s : Scope} {target : Expr}
    (kind : Container) (h : isBareName target = false) :
    emitBareDeclaration site s target kind = do
      let _ ← orRefuse (renderTarget (site.view s) target)
      return .nothing (s.assign target kind).1 := by
  have field (value : Expr) (attr : String) :
      emitBareDeclaration site s (.attribute value attr) kind = do
        let _ ← orRefuse (renderTarget (site.view s) (.attribute value attr))
        return .nothing (s.assign (.attribute value attr) kind).1 := by
    unfold emitBareDeclaration Scope.assign
    cases (Expr.attribute value attr).dottedPath? <;> rfl
  cases target <;> first | exact field _ _ | rfl | cases h

theorem emitBareDeclaration_follows {site : Site} {s : Scope} {target hint : Expr} {r : Emitted}
    (h : emitBareDeclaration site s target (.ofHint site.style.naming hint) = .ok r) :
    Follows site (.stmt (.declare target hint none)) s r := by
  cases hb : isBareName target with
  | true =>
    obtain ⟨id, rfl⟩ := exists_of_isBareName hb
    simp only [emitBareDeclaration, bind_eq_ok, orRefuse_eq_ok] at h
    obtain ⟨_, ⟨⟩, h⟩ := h
    cases hd : s.declaresHere id with
    | true =>
      rw [hd, if_pos rfl, pure_eq_ok] at h
      subst h
      exact ⟨.nil, .declareAgain hd, rfl⟩
    | false =>
      rw [hd, if_neg Bool.false_ne_true, pure_eq_ok] at h
      subst h
      exact ⟨_, .declareFirst hd, rfl⟩
  | false =>
    rw [emitBareDeclaration_of_not_isBareName _ hb] at h
    simp only [bind_eq_ok, orRefuse_eq_ok, pure_eq_ok] at h
    obtain ⟨text, ht, rfl⟩ := h
    exact ⟨.nil, .declareField hb ht, rfl⟩

theorem emitDeclaration_follows {site : Site} {s : Scope} {target hint : Expr}
    {value : Option Expr} {r : Emitted} (h : emitDeclaration site s target hint value = .ok r) :
    Follows site (.stmt (.declare target hint value)) s r := by
  cases value with
  | none => exact emitBareDeclaration_follows h
  | some value =>
    simp only [emitDeclaration, bind_eq_ok, orRefuse_eq_ok, emitAssignment_eq_ok] at h
    obtain ⟨given, hg, text, ht, rfl⟩ := h
    exact ⟨_, .declareValue hg ht, rfl⟩

theorem emitUpdate_follows {site : Site} {s : Scope} {target value : Expr} {op : BinaryOp}
    {r : Emitted} (h : emitUpdate site s target op value = .ok r) :
    Follows site (.stmt (.update target op value)) s r := by
  simp only [emitUpdate, bind_eq_ok, orRefuse_eq_ok] at h
  obtain ⟨text, ht, h⟩ := h
  cases hop : op.target? with
  | none => simp [hop, refuse_eq_ok] at h
  | some token =>
    simp only [hop, bind_eq_ok, orRefuse_eq_ok, pure_eq_ok] at h
    obtain ⟨given, hg, rfl⟩ := h
    exact ⟨_, .update ht hop hg, rfl⟩

theorem emitOtherwise_of_not_isElif {site : Site} {s : Scope} {b : Block} (h : isElif b = false)
    (hne : b ≠ []) :
    emitOtherwise site b s = do
      let inner ← emitBlock site b s
      return ⟨inner.scope, .flush "else" :: nested inner.lines⟩ := by
  cases b with
  | nil => exact absurd rfl hne
  | cons head rest =>
    obtain ⟨n, stmt⟩ := head
    rw [emitOtherwise, emitBlock]
    · simp only [bind_assoc, pure_bind]
    · rintro _ _ _ rfl rfl
      cases h

theorem exists_of_isElif {b : Block} (h : isElif b = true) :
    ∃ n test body orelse, b = [⟨n, .branch test body orelse⟩] := by
  match b, h with
  | [⟨n, .branch test body orelse⟩], _ => exact ⟨n, test, body, orelse, rfl⟩

theorem emitClause_follows {site : Site} {keyword : String} {b : Block} {s : Scope} {r : Emitted}
    (h : Follows site (.block b) s r) :
    Follows site (.clause keyword b) s
      ⟨r.scope, if b.isEmpty then [] else .flush keyword :: nested r.lines⟩ := by
  obtain ⟨o, ho, hlines⟩ := h
  cases b with
  | nil =>
    cases ho
    exact ⟨.nil, .clauseNil, rfl⟩
  | cons head rest =>
    refine ⟨_, .clauseCons (by simp) ho, ?_⟩
    simp [Outline.lines, hlines]

mutual
/-- A statement that was emitted was emitted by the rules. -/
theorem Stmt.follows (site : Site) (stmt : Stmt) {s : Scope} {r : Emitted}
    (h : stmt.emit site s = .ok r) : Follows site (.stmt stmt) s r := by
  match stmt, h with
  | .classDef name bases body, h =>
    simp only [Stmt.emit, bind_eq_ok, pure_eq_ok, orRefuse_eq_ok] at h
    obtain ⟨header, hh, inner, hi, rfl⟩ := h
    obtain ⟨o, ho, hlines⟩ := emitBlock_follows _ body hi
    refine ⟨_, .classDef hh ho, ?_⟩
    simp [Outline.lines, Outline.closing, Outline.only, hlines, memberLine_eq]
  | .functionDef name params decorators body, h =>
    simp only [Stmt.emit, bind_eq_ok, pure_eq_ok, orRefuse_eq_ok, emitGuards_eq_ok] at h
    obtain ⟨isStatic, hs, _, hc, _, ⟨texts, ht, rfl⟩, inner, hi, rfl⟩ := h
    obtain ⟨o, ho, hlines⟩ := emitBlock_follows _ body hi
    refine ⟨_, .functionDef hs hc ht ho, ?_⟩
    simp [Outline.lines, Outline.closing, Outline.only, hlines, writtenParams]
  | .assign targets value, h =>
    simp only [Stmt.emit, bind_eq_ok, orRefuse_eq_ok] at h
    obtain ⟨text, ht, h⟩ := h
    obtain ⟨o, ho, hlines⟩ := emitAssignments_follows h
    exact ⟨o, .assign ht ho, hlines⟩
  | .declare target hint value, h =>
    exact emitDeclaration_follows (by simpa only [Stmt.emit] using h)
  | .update target op value, h => exact emitUpdate_follows (by simpa only [Stmt.emit] using h)
  | .branch test body orelse, h =>
    simp only [Stmt.emit, bind_eq_ok, pure_eq_ok, orRefuse_eq_ok] at h
    obtain ⟨text, ht, first, hf, others, ho, rfl⟩ := h
    obtain ⟨o₁, h₁, hlines₁⟩ := emitBlock_follows _ body hf
    obtain ⟨o₂, h₂, hlines₂⟩ := emitOtherwise_follows _ orelse ho
    refine ⟨_, .branch ht h₁ h₂, ?_⟩
    simp [Outline.lines, Outline.closing, Outline.only, hlines₁, hlines₂]
  | .forEach target iter body orelse, h =>
    simp only [Stmt.emit, bind_eq_ok, pure_eq_ok, orRefuse_eq_ok] at h
    obtain ⟨⟨key, header⟩, hh, inner, hi, rfl⟩ := h
    obtain ⟨o, ho, hlines⟩ := emitBlock_follows _ body hi
    refine ⟨_, .forEach hh ho, ?_⟩
    simp [Outline.lines, Outline.closing, Outline.only, hlines]
  | .whileLoop test body orelse, h =>
    simp only [Stmt.emit, bind_eq_ok, pure_eq_ok, orRefuse_eq_ok] at h
    obtain ⟨text, ht, first, hf, others, ho, rfl⟩ := h
    obtain ⟨o₁, h₁, hlines₁⟩ := emitBlock_follows _ body hf
    obtain ⟨o₂, h₂, hlines₂⟩ := emitClause_follows (emitBlock_follows _ orelse ho)
    refine ⟨_, .whileLoop ht h₁ h₂, ?_⟩
    simp [Outline.lines, Outline.closing, Outline.only, hlines₁, hlines₂]
  | .attempt _ _ (_ :: _) _, h => simp [Stmt.emit, bind_eq_ok, refuse_eq_ok] at h
  | .attempt body handlers [] cleanup, h =>
    simp only [Stmt.emit, List.isEmpty_nil, if_true, bind_eq_ok, pure_eq_ok] at h
    obtain ⟨first, hf, caught, hc, last, hl, rfl⟩ := h
    obtain ⟨o₁, h₁, hlines₁⟩ := emitBlock_follows _ body hf
    obtain ⟨o₂, h₂, hlines₂⟩ := emitHandlers_follows _ handlers hc
    obtain ⟨o₃, h₃, hlines₃⟩ := emitClause_follows (emitBlock_follows _ cleanup hl)
    refine ⟨_, .attempt h₁ h₂ h₃, ?_⟩
    simp [Outline.lines, Outline.closing, Outline.only, hlines₁, hlines₂, hlines₃]
  | .giveBack none, h =>
    simp only [Stmt.emit, pure_eq_ok] at h
    subst h
    exact ⟨_, .leave, rfl⟩
  | .giveBack (some value), h =>
    simp only [Stmt.emit, bind_eq_ok, pure_eq_ok, orRefuse_eq_ok] at h
    obtain ⟨text, ht, rfl⟩ := h
    exact ⟨_, .giveBack ht, rfl⟩
  | .expr value, h =>
    cases hd : isDocText value with
    | true =>
      obtain ⟨text, rfl⟩ : ∃ text, value = .constant (.str text) := by
        match value, hd with
        | .constant (.str text), _ => exact ⟨text, rfl⟩
      simp only [Stmt.emit, pure_eq_ok] at h
      subst h
      exact ⟨_, .docText, rfl⟩
    | false =>
      rw [Stmt.emit] at h
      · simp only [bind_eq_ok, pure_eq_ok, orRefuse_eq_ok] at h
        obtain ⟨text, ht, rfl⟩ := h
        exact ⟨_, .expr hd ht, rfl⟩
      · rintro text rfl
        cases hd
  | .pass, h =>
    simp only [Stmt.emit, pure_eq_ok] at h
    subst h
    exact ⟨_, .pass, rfl⟩
  | .leaveLoop, h =>
    simp only [Stmt.emit, pure_eq_ok] at h
    subst h
    exact ⟨_, .leaveLoop, rfl⟩
  | .nextRound, h =>
    simp only [Stmt.emit, pure_eq_ok] at h
    subst h
    exact ⟨_, .nextRound, rfl⟩
  | .importNames names, h =>
    simp only [Stmt.emit, bind_eq_ok, pure_eq_ok, orRefuse_eq_ok, emitImports_eq_ok] at h
    obtain ⟨_, ⟨hdots, rfl⟩, rfl⟩ := h
    exact ⟨_, .importNames hdots, rfl⟩
  | .globalNames names, h =>
    simp only [Stmt.emit, pure_eq_ok] at h
    subst h
    exact ⟨_, .globalNames, rfl⟩
  | .unsupported kind, h => simp [Stmt.emit, refuse_eq_ok] at h
termination_by (sizeOf stmt, 0)
/-- A block that was emitted was emitted by the rules. -/
theorem emitBlock_follows (site : Site) (b : Block) {s : Scope} {r : Emitted}
    (h : emitBlock site b s = .ok r) : Follows site (.block b) s r := by
  match b with
  | [] =>
    rw [emitBlock, pure_eq_ok] at h
    subst h
    exact ⟨_, .blockNil, rfl⟩
  | ⟨n, stmt⟩ :: rest =>
    simp only [emitBlock, bind_eq_ok, pure_eq_ok, locate_eq_ok] at h
    obtain ⟨first, hf, others, ho, rfl⟩ := h
    obtain ⟨o₁, h₁, hlines₁⟩ := stmt.follows site hf
    obtain ⟨o₂, h₂, hlines₂⟩ := emitBlock_follows site rest ho
    exact ⟨_, .blockCons h₁ h₂, by rw [Outline.lines_append, hlines₁, hlines₂]⟩
termination_by (sizeOf b, 0)
theorem emitOtherwise_follows (site : Site) (b : Block) {s : Scope} {r : Emitted}
    (h : emitOtherwise site b s = .ok r) : Follows site (.otherwise b) s r := by
  cases he : isElif b with
  | true =>
    obtain ⟨n, test, body, orelse, hb⟩ := exists_of_isElif he
    have smaller : sizeOf body < sizeOf b ∧ sizeOf orelse < sizeOf b := by
      rw [hb]
      simp
      omega
    rw [hb] at h ⊢
    simp only [emitOtherwise, bind_eq_ok, pure_eq_ok, locate_eq_ok, orRefuse_eq_ok] at h
    obtain ⟨text, ht, first, hf, others, ho, rfl⟩ := h
    obtain ⟨o₁, h₁, hlines₁⟩ := emitBlock_follows site body hf
    obtain ⟨o₂, h₂, hlines₂⟩ := emitOtherwise_follows site orelse ho
    refine ⟨_, .otherwiseElif ht h₁ h₂, ?_⟩
    simp [Outline.lines, hlines₁, hlines₂]
  | false =>
    by_cases hb : b = []
    · subst hb
      rw [emitOtherwise, pure_eq_ok] at h
      subst h
      exact ⟨_, .otherwiseElse rfl .clauseNil, rfl⟩
    · rw [emitOtherwise_of_not_isElif he hb] at h
      simp only [bind_eq_ok, pure_eq_ok] at h
      obtain ⟨inner, hi, rfl⟩ := h
      obtain ⟨o, ho, hlines⟩ := emitBlock_follows site b hi
      exact ⟨_, .otherwiseElse he (.clauseCons hb ho), by simp [Outline.lines, hlines]⟩
termination_by (sizeOf b, 1)
decreasing_by
  · exact .right _ Nat.zero_lt_one
  · exact .left _ _ smaller.1
  · exact .left _ _ smaller.2
theorem emitHandlers_follows (site : Site) (handlers : List (Handler Block)) {s : Scope}
    {r : Emitted} (h : emitHandlers site handlers s = .ok r) :
    Follows site (.handlers handlers) s r := by
  match handlers with
  | [] =>
    rw [emitHandlers, pure_eq_ok] at h
    subst h
    exact ⟨_, .handlersNil, rfl⟩
  | ⟨caught, name, body⟩ :: rest =>
    simp only [emitHandlers, bind_eq_ok, pure_eq_ok] at h
    obtain ⟨first, hf, others, ho, rfl⟩ := h
    obtain ⟨o₁, h₁, hlines₁⟩ := emitBlock_follows site body hf
    obtain ⟨o₂, h₂, hlines₂⟩ := emitHandlers_follows site rest ho
    cases name with
    | none =>
      refine ⟨_, .handlersBare h₁ h₂, ?_⟩
      simp [Outline.lines, handlerHeader, Emitted.line, hlines₁, hlines₂]
    | some name =>
      refine ⟨_, .handlersNamed h₁ h₂, ?_⟩
      simp [Outline.lines, handlerHeader, Emitted.line, hlines₁, hlines₂]
termination_by (sizeOf handlers, 0)
end

/-- A script that was emitted was emitted by the rules, and its text is that of the outline. -/
theorem emitScript_eq_ok {style : Style} {script : Block} {text : String}
    (h : emitScript style script = .ok text) :
    ∃ s o, Emits ⟨style, .script⟩ (.block script) (.start style.scopeMode) s o ∧
      text = Line.joinAll o.lines := by
  simp only [emitScript, bind_eq_ok, pure_eq_ok] at h
  obtain ⟨r, hr, rfl⟩ := h
  obtain ⟨o, ho, hlines⟩ := emitBlock_follows _ script hr
  exact ⟨r.scope, o, ho, by rw [hlines]⟩

end Berrify
