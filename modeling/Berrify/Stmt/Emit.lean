import Berrify.Expr.Render
import Berrify.Line
import Berrify.Stmt.Members

/-!
# Statements as lines of the target language

`Stmt.emit` writes one statement as lines, the outermost of them at level zero, and returns the
scope that later statements see; `emitBlock` does this for the statements of a block in turn.
A block of the target is a header, the nested lines of its body and `end`.
Every error of a statement gets the line of that statement on the way out of its block.

`emitScript` is the whole text of a script. It depends on a `Style` : the name tables, the scope
mode and whether the fields of a class are declared at its top.
-/

namespace Berrify

/-- What the text of a script depends on besides the script. -/
structure Style where
  naming : Naming := .builtin
  scopeMode : ScopeMode := .lexical
  /-- Whether a class starts with a `var` line for the fields that its methods assign to. -/
  declareMembers : Bool := false

instance : Inhabited Style := ⟨{}⟩

/-- Lines and the scope behind them. -/
structure Emitted where
  scope : Scope
  lines : List Line

namespace Emitted

/-- No lines. -/
def nothing (scope : Scope) : Emitted := ⟨scope, []⟩

/-- One line. -/
def line (scope : Scope) (text : String) : Emitted := ⟨scope, [.flush text]⟩

end Emitted

/-- What a statement stands in and with. -/
structure Site where
  style : Style
  /-- The innermost body around the statement. -/
  body : FrameKind := .script

namespace Site

/-- The view of an expression at a site. -/
def view (site : Site) (scope : Scope) : View :=
  { naming := site.style.naming, scope }

/-- A site inside a body. -/
def within (site : Site) (body : FrameKind) : Site :=
  { site with body }

end Site

/-- A refusal that does not know its line yet. -/
def refuse {α : Type} (cause : Cause) : Except Refusal α :=
  .error { cause }

/-- Lets a cause be refused. -/
def orRefuse {α : Type} : Except Cause α → Except Refusal α
  | .ok value => .ok value
  | .error cause => refuse cause

/-- Gives the refusal of a statement its line. -/
def locate {α : Type} (line : Nat) : Except Refusal α → Except Refusal α
  | .ok value => .ok value
  | .error refusal => .error (refusal.atLine line)

/-! ## Assignments -/

/-- The text of an assignment target. Only names, attributes and subscripts can be assigned to. -/
def renderTarget (view : View) : Expr → Except Cause String
  | .name id => (Expr.name id).render view
  | .attribute value attr => (Expr.attribute value attr).render view
  | .subscript value index => do
    let indexText ← match index.renderIndex view with
      | .ok text => pure text
      | .error inner => throw (.targetIndex inner)
    return (← value.render view) ++ "[" ++ indexText ++ "]"
  | .tuple _ => throw .targetUnpacking
  | .list _ => throw .targetUnpacking
  | .starred _ => throw .starredTarget
  | other => throw (.target other.kindName)

/-- An assignment line; the first assignment to a name of the body declares it. -/
def assignmentLine (form : AssignmentForm) (target value : String) : String :=
  match form with
  | .declare => "var " ++ target ++ " = " ++ value
  | .assign => target ++ " = " ++ value

/-- Assigns a value, given by its text and kind, to one target. -/
def emitAssignment (site : Site) (scope : Scope) (target : Expr) (value : String)
    (kind : Container) : Except Refusal Emitted := do
  let text ← orRefuse (renderTarget (site.view scope) target)
  let (scope', form) := scope.assign target kind
  return .line scope' (assignmentLine form text value)

/-- Assigns a value to targets from left to right. -/
def emitAssignments (site : Site) (value : String) (kind : Container) :
    List Expr → Scope → Except Refusal Emitted
  | [], scope => pure (.nothing scope)
  | target :: rest, scope => do
    let first ← emitAssignment site scope target value kind
    let others ← emitAssignments site value kind rest first.scope
    return ⟨others.scope, first.lines ++ others.lines⟩

/-- A declaration without a value. A name that is not declared yet gets a `var` line, an attribute
only has its kind recorded. -/
def emitBareDeclaration (site : Site) (scope : Scope) (target : Expr) (kind : Container) :
    Except Refusal Emitted := do
  let text ← orRefuse (renderTarget (site.view scope) target)
  match target with
  | .name id =>
    if scope.declaresHere id then return .nothing scope
    else return .line (scope.declare id kind) ("var " ++ text)
  | .attribute .. =>
    match target.dottedPath? with
    | some path => return .nothing (scope.recordKind path kind)
    | none => return .nothing scope
  | _ => return .nothing scope

/-- The kind of a declared name : what the hint says, or else the value. -/
def declaredKind (naming : Naming) (hint value : Expr) : Container :=
  match Container.ofHint naming hint with
  | .unknown => .ofValue naming value
  | kind => kind

/-- A declaration with a type hint. -/
def emitDeclaration (site : Site) (scope : Scope) (target hint : Expr) :
    Option Expr → Except Refusal Emitted
  | none => emitBareDeclaration site scope target (.ofHint site.style.naming hint)
  | some value => do
    let text ← orRefuse (value.render (site.view scope))
    emitAssignment site scope target text (declaredKind site.style.naming hint value)

/-- An assignment with an operator. -/
def emitUpdate (site : Site) (scope : Scope) (target : Expr) (op : BinaryOp) (value : Expr) :
    Except Refusal Emitted := do
  let targetText ← orRefuse (renderTarget (site.view scope) target)
  match op.target? with
  | none => refuse (.updateOperator op)
  | some token =>
    let valueText ← orRefuse (value.render (site.view scope))
    return .line scope (targetText ++ " " ++ token ++ "= " ++ valueText)

/-! ## Headers -/

/-- The bases of a class that have a counterpart. -/
def properBases (bases : List Expr) : List Expr :=
  bases.filter (!·.isName "object")

/-- The header of a class, which has at most one base. -/
def classHeader (view : View) (name : String) (bases : List Expr) : Except Cause String :=
  match properBases bases with
  | [] => pure ("class " ++ name)
  | [base] => do return "class " ++ name ++ " : " ++ (← base.render view)
  | _ => throw (.manyBases name)

/-- The line that declares the fields of a class, if there are any. -/
def memberLine (style : Style) (body : Block) : List Line :=
  let fields := memberFields body
  if style.declareMembers && !fields.isEmpty then [.flush ("var " ++ commaSeparated fields)] else []

/-- Whether the decorators of a function make it static; no other decorator is allowed. -/
def staticDecorators (function : String) : List Expr → Except Cause Bool
  | [] => pure false
  | .name "staticmethod" :: rest => do
    let _ ← staticDecorators function rest
    return true
  | decorator :: _ =>
    throw (.decorator (decorator.dottedPath?.getD decorator.kindName) function)

/-- The parameters without the receiver of a method. -/
def ownParams (isMethod : Bool) (params : List Param) : List Param :=
  if isMethod then params.drop 1 else params

/-- The refusal of parameters that collect arguments. -/
def checkParams : List Param → Except Cause Unit
  | [] => pure ()
  | param :: rest =>
    match param.kind with
    | .positional => checkParams rest
    | .varArgs => throw (.varArgs param.name)
    | .kwArgs => throw (.kwArgs param.name)

/-- The kind of container that a parameter is declared to be. -/
def Param.container (naming : Naming) (param : Param) : Container :=
  match param.hint with
  | some hint => .ofHint naming hint
  | none => .unknown

/-- Declares parameters. -/
def declareParams (naming : Naming) (params : List Param) (scope : Scope) : Scope :=
  params.foldl (fun acc param => acc.declare param.name (param.container naming)) scope

/-- The lines that give a parameter its default when it was left out. -/
def guardLines (name value : String) : List Line :=
  [.flush ("if " ++ name ++ " == nil"), (Line.flush (name ++ " = " ++ value)).nest, .flush "end"]

/-- The guards of all parameters with a default. -/
def emitGuards (view : View) : List Param → Except Cause (List Line)
  | [] => pure []
  | param :: rest =>
    match param.fallback with
    | none => emitGuards view rest
    | some value => do
      let text ← value.render view
      return guardLines param.name text ++ (← emitGuards view rest)

/-- The header of a function. -/
def functionHeader (isStatic : Bool) (name : String) (params : List Param) : String :=
  (if isStatic then "static def " else "def ") ++ name ++ "(" ++
    commaSeparated (params.map (·.name)) ++ ")"

/-- The variable of a loop. -/
def loopVariable : Expr → Except Cause String
  | .name id => pure id
  | .tuple _ => throw .loopUnpacking
  | .list _ => throw .loopUnpacking
  | other => throw (.loopTarget other.kindName)

/-- The map whose keys a loop goes through. -/
def loopReceiver (iter : Expr) : Except Cause Expr :=
  match iter with
  | .call (.attribute value "keys") [] _ => pure value
  | _ => throw (.iteration iter.kindName)

/-- The header of a loop and its variable. -/
def loopHeader (view : View) (target iter : Expr) (orelse : Block) :
    Except Cause (String × String) := do
  unless orelse.isEmpty do throw .loopElse
  let key ← loopVariable target
  let receiver ← loopReceiver iter
  return (key, "for " ++ key ++ " : " ++ (← receiver.render view) ++ ".keys()")

/-- The lines of imports. -/
def emitImports : List ImportedName → Except Cause (List Line)
  | [] => pure []
  | imported :: rest => do
    if imported.name.toList.contains '.' then throw (.dottedImport imported.name)
    let text := match imported.boundAs with
      | some boundAs => "import " ++ imported.name ++ " as " ++ boundAs
      | none => "import " ++ imported.name
    return .flush text :: (← emitImports rest)

/-- Declares global names with the kinds that they are known to have. -/
def declareGlobals (names : List String) (scope : Scope) : Scope :=
  names.foldl (fun acc name => acc.declare name (acc.kindOf name)) scope

/-- The line that opens a handler, and the scope inside it. -/
def handlerHeader (scope : Scope) : Option String → Emitted
  | some name => .line (scope.declare name .unknown) ("except .. as " ++ name)
  | none => .line scope "except .."

/-! ## Statements -/

/-- The lines of a body, one block deeper. -/
def nested (lines : List Line) : List Line :=
  lines.map Line.nest

mutual
/-- The lines of a statement and the scope behind it. -/
def Stmt.emit (site : Site) : Stmt → Scope → Except Refusal Emitted
  | .classDef name bases body, scope => do
    let header ← orRefuse (classHeader (site.view scope) name bases)
    let inner ← emitBlock (site.within .classBody) body (scope.push .classBody)
    return ⟨inner.scope.pop,
      .flush header :: nested (memberLine site.style body ++ inner.lines) ++ [.flush "end"]⟩
  | .functionDef name params decorators body, scope => do
    let isStatic ← orRefuse (staticDecorators name decorators)
    let inClass := site.body == .classBody
    let own := ownParams (inClass && !isStatic) params
    orRefuse (checkParams own)
    let header := functionHeader (isStatic && inClass) (site.style.naming.specialName name) own
    let start := declareParams site.style.naming own ((scope.define name).push .functionBody)
    let guards ← orRefuse (emitGuards (site.view start) own)
    let inner ← emitBlock (site.within .functionBody) body start
    return ⟨inner.scope.pop,
      .flush header :: nested (guards ++ inner.lines) ++ [.flush "end"]⟩
  | .assign targets value, scope => do
    let text ← orRefuse (value.render (site.view scope))
    emitAssignments site text (.ofValue site.style.naming value) targets scope
  | .declare target hint value, scope => emitDeclaration site scope target hint value
  | .update target op value, scope => emitUpdate site scope target op value
  | .branch test body orelse, scope => do
    let testText ← orRefuse (test.renderCondition (site.view scope))
    let first ← emitBlock site body scope
    let others ← emitOtherwise site orelse first.scope
    return ⟨others.scope,
      .flush ("if " ++ testText) :: nested first.lines ++ others.lines ++ [.flush "end"]⟩
  | .forEach target iter body orelse, scope => do
    let (key, header) ← orRefuse (loopHeader (site.view scope) target iter orelse)
    let inner ← emitBlock site body (scope.declare key .unknown)
    return ⟨inner.scope, .flush header :: nested inner.lines ++ [.flush "end"]⟩
  | .whileLoop test body orelse, scope => do
    let testText ← orRefuse (test.renderCondition (site.view scope))
    let first ← emitBlock site body scope
    let others ← emitBlock site orelse first.scope
    let elseLines := if orelse.isEmpty then [] else .flush "else" :: nested others.lines
    return ⟨others.scope,
      .flush ("while " ++ testText) :: nested first.lines ++ elseLines ++ [.flush "end"]⟩
  | .attempt body handlers orelse cleanup, scope => do
    unless orelse.isEmpty do refuse .attemptElse
    let first ← emitBlock site body scope
    let caught ← emitHandlers site handlers first.scope
    let last ← emitBlock site cleanup caught.scope
    let lastLines := if cleanup.isEmpty then [] else .flush "finally" :: nested last.lines
    return ⟨last.scope,
      .flush "try" :: nested first.lines ++ caught.lines ++ lastLines ++ [.flush "end"]⟩
  | .giveBack none, scope => pure (.line scope "return")
  | .giveBack (some value), scope => do
    return .line scope ("return " ++ (← orRefuse (value.render (site.view scope))))
  | .expr (.constant (.str _)), scope => pure (.nothing scope)
  | .expr value, scope => do
    return .line scope (← orRefuse (value.render (site.view scope)))
  | .pass, scope => pure (.nothing scope)
  | .leaveLoop, scope => pure (.line scope "break")
  | .nextRound, scope => pure (.line scope "continue")
  | .importNames names, scope => do
    return ⟨scope, ← orRefuse (emitImports names)⟩
  | .globalNames names, scope =>
    pure (.line (declareGlobals names scope) ("global " ++ commaSeparated names))
  | .unsupported kind, _ => refuse (.unknownStatement kind)
/-- The lines of the statements of a block. -/
def emitBlock (site : Site) : List (Located Stmt) → Scope → Except Refusal Emitted
  | [], scope => pure (.nothing scope)
  | ⟨line, stmt⟩ :: rest, scope => do
    let first ← locate line (stmt.emit site scope)
    let others ← emitBlock site rest first.scope
    return ⟨others.scope, first.lines ++ others.lines⟩
/-- What a branch does otherwise : nothing, a further test if it is a branch itself, or a block. -/
def emitOtherwise (site : Site) : List (Located Stmt) → Scope → Except Refusal Emitted
  | [], scope => pure (.nothing scope)
  | [⟨line, .branch test body orelse⟩], scope => do
    let testText ← locate line (orRefuse (test.renderCondition (site.view scope)))
    let first ← emitBlock site body scope
    let others ← emitOtherwise site orelse first.scope
    return ⟨others.scope, .flush ("elif " ++ testText) :: nested first.lines ++ others.lines⟩
  | ⟨line, stmt⟩ :: rest, scope => do
    let first ← locate line (stmt.emit site scope)
    let others ← emitBlock site rest first.scope
    return ⟨others.scope, .flush "else" :: nested (first.lines ++ others.lines)⟩
/-- The clauses that catch exceptions. -/
def emitHandlers (site : Site) :
    List (Handler (List (Located Stmt))) → Scope → Except Refusal Emitted
  | [], scope => pure (.nothing scope)
  | ⟨_, name, body⟩ :: rest, scope => do
    let head := handlerHeader scope name
    let first ← emitBlock site body head.scope
    let others ← emitHandlers site rest first.scope
    return ⟨others.scope, head.lines ++ nested first.lines ++ others.lines⟩
end

/-- The text of a script. -/
def emitScript (style : Style) (script : Block) : Except Refusal String := do
  let emitted ← emitBlock { style } script (.start style.scopeMode)
  return Line.joinAll emitted.lines

end Berrify
