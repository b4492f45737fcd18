import Berrify.Proofs.Expr.Copies
import Berrify.Proofs.Stmt.Operations

/-!
# How often a script writes its calls

The expressions of a script stand at its places, in the order of `blockPlaces`. The address of a
call in the script is the number of its place and its address in the expression there. The value of
an assignment is written once for each target; all other places are written once
(`ExprPlace.factor`), and inside of an expression the copies are those of `Expr.copies`.

`scriptTagged` writes a script as `emitScript` does and tags what it writes for each call. The parts
of a script follow each other in places and in text alike, so what holds of the places of two parts
(`Accounts`) holds of both together (`Accounts.append`), and the induction over `Emits` puts the
whole script together (`Emits.accounted`). `calls_written` is the result for scripts.
-/

namespace Berrify

/-! ## Places -/

/-- Where an expression stands in a script, and how often its statement writes it. -/
structure ExprPlace where
  expr : Expr
  factor : Nat

/-- The places of expressions that are written once. -/
def once (es : List Expr) : List ExprPlace :=
  es.map (⟨·, 1⟩)

@[simp] theorem length_once (es : List Expr) : (once es).length = es.length :=
  List.length_map _

mutual
/-- The places of a statement, which stands directly in a class body or not. The value of an
assignment is written for each target. Type hints and caught classes are no places, nor are a target
that is only declared and the default of a receiver. -/
def Stmt.places (inClass : Bool) : Stmt → List ExprPlace
  | .classDef _ bases body => once bases ++ blockPlaces true body
  | .functionDef _ params decorators body =>
    once decorators ++
      (once ((defaults (ownParams (inClass && !isDecoratedStatic decorators) params)).map (·.2)) ++
        blockPlaces false body)
  | .assign targets value => once targets ++ [⟨value, targets.length⟩]
  | .declare _ _ none => []
  | .declare target _ (some value) => once [target, value]
  | .update target _ value => once [target, value]
  | .branch test body orelse =>
    once [test] ++ (blockPlaces inClass body ++ blockPlaces inClass orelse)
  | .forEach target iter body orelse =>
    once [target, iter] ++ (blockPlaces inClass body ++ blockPlaces inClass orelse)
  | .whileLoop test body orelse =>
    once [test] ++ (blockPlaces inClass body ++ blockPlaces inClass orelse)
  | .attempt body handlers orelse cleanup =>
    blockPlaces inClass body ++ (handlersPlaces inClass handlers ++
      (blockPlaces inClass orelse ++ blockPlaces inClass cleanup))
  | .giveBack value => once value.toList
  | .expr value => once [value]
  | .pass => []
  | .leaveLoop => []
  | .nextRound => []
  | .importNames _ => []
  | .globalNames _ => []
  | .unsupported _ => []
/-- The places of the statements of a block. -/
def blockPlaces (inClass : Bool) : List (Located Stmt) → List ExprPlace
  | [] => []
  | ⟨_, stmt⟩ :: rest => stmt.places inClass ++ blockPlaces inClass rest
/-- The places of handlers. -/
def handlersPlaces (inClass : Bool) : List (Handler (List (Located Stmt))) → List ExprPlace
  | [] => []
  | ⟨_, _, body⟩ :: rest => blockPlaces inClass body ++ handlersPlaces inClass rest
end

/-- How often a call is written, where an address is the number of a place and an address in the
expression there, and the places are numbered from `n` on. -/
def copiesIn (n : Nat) (places : List ExprPlace) : Address → Nat
  | [] => 0
  | k :: a =>
    if n ≤ k then places[k - n]?.elim 0 fun place => place.factor * place.expr.copies a else 0

@[simp] theorem copiesIn_nil (n : Nat) (a : Address) : copiesIn n [] a = 0 := by
  cases a <;> simp [copiesIn]

theorem copiesIn_append (n : Nat) (first second : List ExprPlace) (a : Address) :
    copiesIn n (first ++ second) a =
      copiesIn n first a + copiesIn (n + first.length) second a := by
  cases a with
  | nil => rfl
  | cons k a =>
    simp only [copiesIn]
    by_cases hn : n ≤ k
    · by_cases hk : k - n < first.length
      · rw [if_pos hn, if_pos hn, if_neg (by omega), List.getElem?_append_left hk, Nat.add_zero]
      · have behind : k - n - first.length = k - (n + first.length) := by omega
        have outside : first[k - n]? = none := List.getElem?_eq_none (by omega)
        rw [if_pos hn, if_pos hn, if_pos (by omega), List.getElem?_append_right (by omega),
          outside, behind, Option.elim_none, Nat.zero_add]
    · rw [if_neg hn, if_neg hn, if_neg (by omega)]

/-! ## Writing a script with tags -/

/-- A line at a level. -/
def lineAt (level : Nat) (m : Tagged) : Tagged :=
  .plain (String.join (List.replicate level Line.indentation)) ++ m ++ .plain "\n"

/-- The expression at a place. -/
def slot (view : View) (n : Nat) (e : Expr) : Tagged :=
  (e.tag view).shift n

/-- The test of a branch or loop. -/
def conditionTagged (view : View) (n : Nat) (test : Expr) : Tagged :=
  if test.isContainsTest then (slot view n test).parenthesize else slot view n test

/-- The target of an assignment. What a subscript assigns to stands alone. -/
def targetTagged (view : View) (target : Expr) : Tagged :=
  match target with
  | .subscript .. => target.tagPart view 0 ++ .plain "[" ++ target.tagPart view 1 ++ .plain "]"
  | target => target.tag view

/-- An assignment. -/
def assignmentTagged (form : AssignmentForm) (target value : Tagged) : Tagged :=
  match form with
  | .declare => .plain "var " ++ target ++ .plain " = " ++ value
  | .assign => target ++ .plain " = " ++ value

/-- The assignments of a value to targets. -/
def targetsTagged (site : Site) (level : Nat) (value : Tagged) (kind : Container) :
    Nat → List Expr → Scope → Tagged
  | _, [], _ => .plain ""
  | n, target :: rest, scope =>
    lineAt level (assignmentTagged (scope.assign target kind).2
      ((targetTagged (site.view scope) target).shift n) value) ++
        targetsTagged site level value kind (n + 1) rest (scope.assign target kind).1

/-- The bases of a class that have a counterpart. -/
def basesTagged (view : View) : Nat → List Expr → Tagged
  | _, [] => .plain ""
  | n, base :: rest =>
    if base.isName "object" then basesTagged view (n + 1) rest
    else .plain " : " ++ slot view n base ++ basesTagged view (n + 1) rest

/-- The guards of parameters. -/
def guardsTagged (view : View) (level : Nat) : Nat → List (String × Expr) → Tagged
  | _, [] => .plain ""
  | n, (name, value) :: rest =>
    lineAt level (.plain ("if " ++ name ++ " == nil")) ++
      (lineAt (level + 1) (.plain (name ++ " = ") ++ slot view n value) ++
        (lineAt level (.plain "end") ++ guardsTagged view level (n + 1) rest))

/-- The header of a loop, whose target is the `n`-th place. -/
def loopTagged (view : View) (n : Nat) (target iter : Expr) : Tagged :=
  match target with
  | .name key =>
    .plain ("for " ++ key ++ " : ") ++
      (Tagged.call [] (iter.tagInner view 0 0 ++ .plain ".keys()")).shift (n + 1)
  | _ => .plain ""

/-- Lines without calls. -/
def linesAt (level : Nat) : List String → Tagged
  | [] => .plain ""
  | text :: rest => lineAt level (.plain text) ++ linesAt level rest

/-- A declaration without a value. -/
def bareTagged (level : Nat) (scope : Scope) : Expr → Tagged
  | .name id => if scope.declaresHere id then .plain "" else lineAt level (.plain ("var " ++ id))
  | _ => .plain ""

/-- The scope behind a block. -/
def behindBlock (site : Site) (b : Block) (scope : Scope) : Scope :=
  scope.performAll (blockOperations site.style.naming (site.body == .classBody) b)

/-- How many places a block has. -/
def blockSize (site : Site) (b : Block) : Nat :=
  (blockPlaces (site.body == .classBody) b).length

/-- A clause under a keyword. -/
def clauseTagged (level : Nat) (keyword : String) (b : Block) (inner : Tagged) : Tagged :=
  if b.isEmpty then .plain "" else lineAt level (.plain keyword) ++ inner

/-- The line that opens a handler. -/
def handlerText : Option String → String
  | some name => "except .. as " ++ name
  | none => "except .."

/-- The scope inside a handler. -/
def handlerScope (scope : Scope) : Option String → Scope
  | some name => scope.declare name .unknown
  | none => scope

mutual
/-- The lines of a statement with its calls, given the level, the number of its first place and the
scope before it. -/
def Stmt.tagged (site : Site) (level : Nat) : Stmt → Nat → Scope → Tagged
  | .classDef name bases body, n, scope =>
    lineAt level (.plain ("class " ++ name) ++ basesTagged (site.view scope) n bases) ++
      ((linesAt (level + 1) (memberTexts site.style body) ++
          blockTagged (site.within .classBody) (level + 1) body (n + bases.length)
            (scope.push .classBody)) ++
        lineAt level (.plain "end"))
  | .functionDef name params decorators body, n, scope =>
    let isStatic := isDecoratedStatic decorators
    let own := writtenParams site isStatic params
    let start := functionScope site scope name own
    lineAt level (.plain (functionHeader (isStatic && site.body == .classBody)
        (site.style.naming.specialName name) own)) ++
      ((guardsTagged (site.view start) (level + 1) (n + decorators.length) (defaults own) ++
          blockTagged (site.within .functionBody) (level + 1) body
            (n + decorators.length + (defaults own).length) start) ++
        lineAt level (.plain "end"))
  | .assign targets value, n, scope =>
    targetsTagged site level (slot (site.view scope) (n + targets.length) value)
      (.ofValue site.style.naming value) n targets scope
  | .declare target _ none, _, scope => bareTagged level scope target
  | .declare target hint (some value), n, scope =>
    lineAt level (assignmentTagged (scope.assign target
        (declaredKind site.style.naming hint value)).2
      ((targetTagged (site.view scope) target).shift n) (slot (site.view scope) (n + 1) value))
  | .update target op value, n, scope =>
    lineAt level ((targetTagged (site.view scope) target).shift n ++
      .plain (" " ++ op.target?.getD "" ++ "= ") ++ slot (site.view scope) (n + 1) value)
  | .branch test body orelse, n, scope =>
    lineAt level (.plain "if " ++ conditionTagged (site.view scope) n test) ++
      (blockTagged site (level + 1) body (n + 1) scope ++
        (otherwiseTagged site level orelse (n + 1 + blockSize site body)
            (behindBlock site body scope) ++
          lineAt level (.plain "end")))
  | .forEach target iter body _, n, scope =>
    lineAt level (loopTagged (site.view scope) n target iter) ++
      (blockTagged site (level + 1) body (n + 2)
          (scope.performAll (loopOperations target)) ++
        lineAt level (.plain "end"))
  | .whileLoop test body orelse, n, scope =>
    lineAt level (.plain "while " ++ conditionTagged (site.view scope) n test) ++
      (blockTagged site (level + 1) body (n + 1) scope ++
        (clauseTagged level "else" orelse
            (blockTagged site (level + 1) orelse (n + 1 + blockSize site body)
              (behindBlock site body scope)) ++
          lineAt level (.plain "end")))
  | .attempt body handlers _ cleanup, n, scope =>
    let behindBody := behindBlock site body scope
    let inClass := site.body == .classBody
    lineAt level (.plain "try") ++
      (blockTagged site (level + 1) body n scope ++
        ((handlersTagged site level handlers (n + blockSize site body) behindBody ++
            clauseTagged level "finally" cleanup
              (blockTagged site (level + 1) cleanup
                (n + blockSize site body + (handlersPlaces inClass handlers).length)
                (behindBody.performAll
                  (handlersOperations site.style.naming inClass handlers)))) ++
          lineAt level (.plain "end")))
  | .giveBack none, _, _ => lineAt level (.plain "return")
  | .giveBack (some value), n, scope =>
    lineAt level (.plain "return " ++ slot (site.view scope) n value)
  | .expr value, n, scope =>
    if isDocText value then .plain "" else lineAt level (slot (site.view scope) n value)
  | .pass, _, _ => .plain ""
  | .leaveLoop, _, _ => lineAt level (.plain "break")
  | .nextRound, _, _ => lineAt level (.plain "continue")
  | .importNames names, _, _ => linesAt level (names.map importText)
  | .globalNames names, _, _ => lineAt level (.plain ("global " ++ commaSeparated names))
  | .unsupported _, _, _ => .plain ""
/-- The lines of the statements of a block. -/
def blockTagged (site : Site) (level : Nat) : List (Located Stmt) → Nat → Scope → Tagged
  | [], _, _ => .plain ""
  | ⟨_, stmt⟩ :: rest, n, scope =>
    stmt.tagged site level n scope ++
      blockTagged site level rest (n + (stmt.places (site.body == .classBody)).length)
        (scope.performAll (stmt.operations site.style.naming (site.body == .classBody)))
/-- The lines of what a branch does otherwise. -/
def otherwiseTagged (site : Site) (level : Nat) : List (Located Stmt) → Nat → Scope → Tagged
  | [], _, _ => .plain ""
  | [⟨_, .branch test body orelse⟩], n, scope =>
    lineAt level (.plain "elif " ++ conditionTagged (site.view scope) n test) ++
      (blockTagged site (level + 1) body (n + 1) scope ++
        otherwiseTagged site level orelse (n + 1 + blockSize site body)
          (behindBlock site body scope))
  | ⟨_, stmt⟩ :: rest, n, scope =>
    lineAt level (.plain "else") ++
      (stmt.tagged site (level + 1) n scope ++
        blockTagged site (level + 1) rest (n + (stmt.places (site.body == .classBody)).length)
          (scope.performAll (stmt.operations site.style.naming (site.body == .classBody))))
/-- The lines of handlers. -/
def handlersTagged (site : Site) (level : Nat) :
    List (Handler (List (Located Stmt))) → Nat → Scope → Tagged
  | [], _, _ => .plain ""
  | ⟨_, name, body⟩ :: rest, n, scope =>
    lineAt level (.plain (handlerText name)) ++
      (blockTagged site (level + 1) body n (handlerScope scope name) ++
        handlersTagged site level rest (n + blockSize site body)
          (behindBlock site body (handlerScope scope name)))
end

/-- The text of a script with its calls. -/
def scriptTagged (style : Style) (script : Block) : Tagged :=
  blockTagged { style } 0 script 0 (.start style.scopeMode)

/-! ## The text of an outline -/

namespace Outline

/-- The text of an outline at a level. -/
def textAt (level : Nat) : Outline → String
  | nil => ""
  | line text _ rest => (Line.mk level text).render ++ "\n" ++ rest.textAt level
  | block inner rest => inner.textAt (level + 1) ++ rest.textAt level
  | body _ inner rest => inner.textAt (level + 1) ++ rest.textAt level

@[simp] theorem textAt_append (level : Nat) (o p : Outline) :
    (o ++ p).textAt level = o.textAt level ++ p.textAt level := by
  change (o.append p).textAt level = _
  induction o with
  | nil => simp [append, textAt]
  | line text role rest ih => simp [append, textAt, ih, String.append_assoc]
  | block inner rest _ ih => simp [append, textAt, ih, String.append_assoc]
  | body params inner rest _ ih => simp [append, textAt, ih, String.append_assoc]

/-- The lines of a nested outline are one level deeper. -/
theorem textAt_eq (level : Nat) (o : Outline) :
    o.textAt level = Line.joinAll (o.lines.map fun line => ⟨line.level + level, line.text⟩) := by
  have joinAll_append (first second : List Line) :
      Line.joinAll (first ++ second) = Line.joinAll first ++ Line.joinAll second := by
    simp [Line.joinAll, String.join_append]
  have deeper (inner : Outline) (level : Nat) :
      (nested inner.lines).map (fun line => (⟨line.level + level, line.text⟩ : Line)) =
        inner.lines.map fun line => ⟨line.level + (level + 1), line.text⟩ := by
    simp [nested, Line.nest, Nat.add_assoc, Nat.add_comm 1]
  induction o generalizing level with
  | nil => rfl
  | line text role rest ih =>
    rw [textAt, ih, lines, List.map_cons]
    simp [Line.joinAll, Line.flush]
  | block inner rest ih₁ ih₂ =>
    rw [textAt, ih₁, ih₂, lines, List.map_append, deeper, joinAll_append]
  | body params inner rest ih₁ ih₂ =>
    rw [textAt, ih₁, ih₂, lines, List.map_append, deeper, joinAll_append]

theorem textAt_zero (o : Outline) : o.textAt 0 = Line.joinAll o.lines := by
  simp [textAt_eq]

end Outline

/-! ## Accounts -/

/-- The text of the call at an address in an expression. The call that a loop goes through is
written with its receiver as that stands alone. -/
def PlaceText (naming : Naming) (e : Expr) (a : Address) (text : String) : Prop :=
  (∃ scope, Expr.CallText ⟨naming, scope⟩ e a text) ∨
    a = [] ∧ ∃ receiver keywords scope inner, e = .call (.attribute receiver "keys") [] keywords ∧
      receiver.render ⟨naming, scope⟩ = .ok inner ∧ inner ++ ".keys()" = text

/-- The text of the call at an address in a list of places that is numbered from `n` on. -/
def WrittenFor (naming : Naming) (n : Nat) (places : List ExprPlace) : Address → String → Prop
  | [], _ => False
  | k :: a, text =>
    n ≤ k ∧ ∃ place, places[k - n]? = some place ∧ PlaceText naming place.expr a text

theorem WrittenFor.left {naming : Naming} {n : Nat} {first : List ExprPlace}
    (second : List ExprPlace) {a : Address} {text : String} (h : WrittenFor naming n first a text) :
    WrittenFor naming n (first ++ second) a text := by
  cases a with
  | nil => exact h
  | cons k a =>
    obtain ⟨hn, place, hplace, ht⟩ := h
    refine ⟨hn, place, ?_, ht⟩
    rwa [List.getElem?_append_left (List.getElem?_eq_some_iff.1 hplace).1]

theorem WrittenFor.right {naming : Naming} {n : Nat} (first : List ExprPlace)
    {second : List ExprPlace} {a : Address} {text : String}
    (h : WrittenFor naming (n + first.length) second a text) :
    WrittenFor naming n (first ++ second) a text := by
  cases a with
  | nil => exact h
  | cons k a =>
    obtain ⟨hn, place, hplace, ht⟩ := h
    have behind : k - (n + first.length) = k - n - first.length := by omega
    refine ⟨by omega, place, ?_, ht⟩
    rwa [List.getElem?_append_right (by omega), ← behind]

theorem spells_lineAt {p : Address → String → Prop} {m : Tagged} {text : String}
    (h : m.Spells p text) (level : Nat) :
    (lineAt level m).Spells p ((Line.mk level text).render ++ "\n") :=
  ((Tagged.Spells.plain _).append h).append (.plain "\n")

@[simp] theorem count_lineAt (level : Nat) (m : Tagged) (a : Address) :
    (lineAt level m).count a = m.count a := by
  simp [lineAt]

/-- A text with tags that has each call of some places as often as they say. -/
structure Accounts (naming : Naming) (n : Nat) (places : List ExprPlace) (text : String)
    (m : Tagged) : Prop where
  spells : m.Spells (WrittenFor naming n places) text
  count : ∀ a, m.count a = copiesIn n places a

namespace Accounts

variable {naming : Naming} {n level : Nat} {places others : List ExprPlace} {text next : String}
  {m m' : Tagged} {o p : Outline}

theorem plain (text : String) : Accounts naming n [] text (.plain text) :=
  ⟨.plain text, fun a => by rw [Tagged.count_plain, copiesIn_nil]⟩

theorem append (h : Accounts naming n places text m)
    (h' : Accounts naming (n + places.length) others next m') :
    Accounts naming n (places ++ others) (text ++ next) (m ++ m') where
  spells := (h.spells.mono fun _ _ => .left others).append (h'.spells.mono fun _ _ => .right places)
  count a := by rw [Tagged.count_append, h.count, h'.count, copiesIn_append]

theorem renumber {k : Nat} (h : Accounts naming n places text m) (hk : n = k) :
    Accounts naming k places text m :=
  hk ▸ h

theorem parenthesize (h : Accounts naming n places text m) :
    Accounts naming n places (Berrify.parenthesize text) m.parenthesize where
  spells := h.spells.parenthesize
  count a := by rw [Tagged.count_parenthesize, h.count]

/-- What is no call and has no parts need not be written. -/
theorem silent (es : List Expr) (hes : ∀ e ∈ es, e.isCall = false ∧ e.parts = [])
    (h : Accounts naming (n + es.length) places text m) :
    Accounts naming n (once es ++ places) text m := by
  rw [← length_once es] at h
  have none (a : Address) : copiesIn n (once es) a = 0 := by
    cases a with
    | nil => rfl
    | cons k a =>
      have silent (e : Expr) (he : e ∈ es) : e.copies a = 0 :=
        Expr.copies_eq_zero (hes e he).1 (hes e he).2 a
      rw [copiesIn, once, List.getElem?_map]
      split
      · cases he : es[k - n]? with
        | none => rfl
        | some e => simp [silent e (List.mem_of_getElem? he)]
      · rfl
  refine ⟨h.spells.mono fun _ _ => .right (once es), fun a => ?_⟩
  rw [h.count, copiesIn_append, none, Nat.zero_add]

theorem lineAt (h : Accounts naming n places text m) :
    Accounts naming n places ((Line.mk level text).render ++ "\n") (Berrify.lineAt level m) where
  spells := spells_lineAt h.spells level
  count a := by rw [count_lineAt, h.count]

/-- A line in front of an outline. -/
theorem line (h : Accounts naming n places text m) (role : Role)
    (h' : Accounts naming (n + places.length) others (o.textAt level) m') :
    Accounts naming n (places ++ others) ((Outline.line text role o).textAt level)
      (Berrify.lineAt level m ++ m') :=
  h.lineAt.append h'

theorem only (h : Accounts naming n places text m) (role : Role) :
    Accounts naming n places ((Outline.only text role).textAt level) (Berrify.lineAt level m) := by
  simpa [Outline.only, Outline.textAt] using h.lineAt

theorem appendOutline (h : Accounts naming n places (o.textAt level) m)
    (h' : Accounts naming (n + places.length) others (p.textAt level) m') :
    Accounts naming n (places ++ others) ((o ++ p).textAt level) (m ++ m') := by
  simpa using h.append h'

theorem closing :
    Accounts naming n [] (Outline.closing.textAt level) (Berrify.lineAt level (.plain "end")) :=
  (plain "end").only .other

/-- The closing line behind an outline. -/
theorem closed (h : Accounts naming n places (o.textAt level) m) :
    Accounts naming n places ((o ++ Outline.closing).textAt level)
      (m ++ Berrify.lineAt level (.plain "end")) := by
  have both := h.appendOutline closing
  rwa [List.append_nil] at both

/-- A block up to its closing line. -/
theorem closedBlock (h : Accounts naming n places (o.textAt (level + 1)) m) :
    Accounts naming n places ((Outline.block o .closing).textAt level)
      (m ++ Berrify.lineAt level (.plain "end")) := by
  have both := h.append (closing : Accounts _ _ _ (Outline.closing.textAt level) _)
  rwa [List.append_nil] at both

end Accounts

/-! ## What stands at a place -/

section

variable {naming : Naming} {scope : Scope} {n : Nat} {e : Expr} {text : String}

/-- A tagged text of the expression at a place, with the addresses of the script. -/
theorem spells_place {m : Tagged} (h : m.Spells (PlaceText naming e) text) (factor : Nat) :
    (m.shift n).Spells (WrittenFor naming n [⟨e, factor⟩]) text :=
  (h.mono fun _ _ ha => ⟨Nat.le_refl n, _, by rw [Nat.sub_self]; rfl, ha⟩).shift

theorem count_place {m : Tagged} (h : ∀ a, m.count a = e.copies a) (factor : Nat) (a : Address) :
    factor * (m.shift n).count a = copiesIn n [⟨e, factor⟩] a := by
  cases a with
  | nil => simp [copiesIn]
  | cons k a =>
    rw [Tagged.count_shift_cons, copiesIn, h]
    by_cases hk : k = n
    · simp [hk]
    · have beyond (hn : n ≤ k) : k - n = (k - n - 1) + 1 := by omega
      by_cases hn : n ≤ k
      · rw [if_neg hk, if_pos hn, beyond hn]
        rfl
      · rw [if_neg hk, if_neg hn, Nat.mul_zero]

theorem Accounts.place {m : Tagged} (h : m.Spells (PlaceText naming e) text)
    (hc : ∀ a, m.count a = e.copies a) : Accounts naming n [⟨e, 1⟩] text (m.shift n) :=
  ⟨spells_place h 1, fun a => by rw [← count_place hc, Nat.one_mul]⟩

/-- An expression that was written alone. -/
theorem spells_tag (h : e.render ⟨naming, scope⟩ = .ok text) :
    (e.tag ⟨naming, scope⟩).Spells (PlaceText naming e) text :=
  (Expr.tagsRight _ e .whole text h).mono fun _ _ ha => .inl ⟨scope, ha⟩

theorem Accounts.slot (h : e.render ⟨naming, scope⟩ = .ok text) :
    Accounts naming n [⟨e, 1⟩] text (slot ⟨naming, scope⟩ n e) :=
  .place (spells_tag h) (Expr.count_tag _ e)

theorem Accounts.condition (h : e.renderCondition ⟨naming, scope⟩ = .ok text) :
    Accounts naming n [⟨e, 1⟩] text (conditionTagged ⟨naming, scope⟩ n e) := by
  obtain ⟨alone, ha, rfl⟩ := map_eq_ok.1 h
  unfold conditionTagged
  split
  · exact (Accounts.slot ha).parenthesize
  · exact .slot ha

theorem Accounts.target (h : renderTarget ⟨naming, scope⟩ e = .ok text) :
    Accounts naming n [⟨e, 1⟩] text ((targetTagged ⟨naming, scope⟩ e).shift n) := by
  match e, h with
  | .name id, h => exact .slot h
  | .attribute value attr, h => exact .slot h
  | .subscript value index, h =>
    obtain ⟨b, hb, a, ha, rfl⟩ := renderTarget_subscript_eq_ok.1 h
    have first : (Expr.subscript value index).parts[0]? = some value := rfl
    have second : (Expr.subscript value index).parts[1]? = some index := rfl
    have spelled := (((Expr.spells_tagPart first (Expr.tagsRight _ value) ha).append
      (.plain "[")).append (Expr.spells_tagPart second (Expr.tagsRight _ index) hb)).append
        (.plain "]")
    refine .place (spelled.mono fun _ _ hc => .inl ⟨scope, hc⟩) fun a => ?_
    rw [← Expr.count_tag ⟨naming, scope⟩, Expr.tag_eq, Expr.compose]
    simp [targetTagged]
  | .constant _, h | .call .., h | .binary .., h | .unary .., h | .boolean .., h | .compare .., h
  | .conditional .., h | .dict _, h | .list _, h | .tuple _, h | .set _, h | .slice .., h
  | .lambda .., h | .template _, h | .starred _, h | .unsupported _, h =>
    simp [renderTarget, throw_eq_ok] at h

/-- The map that a loop goes through is written once, and the call of its keys as well. -/
theorem Accounts.loop {target iter : Expr} {orelse : Block} {key header : String}
    (h : loopHeader ⟨naming, scope⟩ target iter orelse = .ok (key, header)) :
    Accounts naming n (once [target, iter]) header
      (loopTagged ⟨naming, scope⟩ n target iter) := by
  obtain ⟨-, rfl, receiver, keywords, hi, text, ht, rfl⟩ := loopHeader_eq_ok.1 h
  have outer : iter.parts[0]? = some (.attribute receiver "keys") := by rw [hi]; rfl
  have spelled := (Expr.spells_tagInner outer (k := 0) rfl (Expr.tagsRight _ receiver) ht).append
    (.plain ".keys()")
  have called : (Tagged.call [] (iter.tagInner ⟨naming, scope⟩ 0 0 ++ .plain ".keys()")).Spells
      (PlaceText naming iter) (text ++ ".keys()") :=
    .call (.inr ⟨rfl, receiver, keywords, scope, text, hi, ht, rfl⟩)
      (spelled.mono fun _ _ hc => .inl ⟨scope, hc⟩)
  have counted (a : Address) :
      (Tagged.call [] (iter.tagInner ⟨naming, scope⟩ 0 0 ++ .plain ".keys()")).count a =
        iter.copies a := by
    rw [← Expr.count_tag ⟨naming, scope⟩, Expr.tag_eq, hi, Expr.compose]
    simp [Tagged.count, Expr.calleeTagged, Expr.listed]
  rw [String.append_assoc]
  exact silent [.name key] (by simp [Expr.isCall, Expr.parts])
    ((plain ("for " ++ key ++ " : ")).append (.place called counted))

/-- The bases of a class but `object`. -/
theorem Accounts.bases {bases : List Expr} {texts : List String}
    (h : List.Forall₂ (fun base text => base.render ⟨naming, scope⟩ = .ok text)
      (properBases bases) texts) :
    Accounts naming n (once bases) (String.join (texts.map (" : " ++ ·)))
      (basesTagged ⟨naming, scope⟩ n bases) := by
  induction bases generalizing n texts with
  | nil =>
    cases h
    exact .plain ""
  | cons base rest ih =>
    rw [basesTagged]
    split
    · rename_i hb
      obtain ⟨id, rfl⟩ : ∃ id, base = .name id := by
        cases base <;> first | exact ⟨_, rfl⟩ | cases hb
      exact .silent [.name id] (by simp [Expr.isCall, Expr.parts])
        (ih (by simpa [properBases, hb] using h))
    · rename_i hb
      have proper : properBases (base :: rest) = base :: properBases rest := by
        simp [properBases, hb]
      rw [proper] at h
      cases h with
      | cons first later =>
        rw [List.map_cons, String.join_cons]
        exact ((plain " : ").append (.slot first)).append (ih later)

theorem classHeader_eq_ok {view : View} {name header : String} {bases : List Expr}
    (h : classHeader view name bases = .ok header) :
    ∃ texts, List.Forall₂ (fun base text => base.render view = .ok text) (properBases bases) texts ∧
      "class " ++ name ++ String.join (texts.map (" : " ++ ·)) = header := by
  unfold classHeader at h
  split at h
  · rename_i hb
    obtain rfl := pure_eq_ok.1 h
    exact ⟨[], by rw [hb]; exact .nil, by simp⟩
  · rename_i base hb
    simp only [bind_eq_ok, pure_eq_ok] at h
    obtain ⟨text, ht, rfl⟩ := h
    exact ⟨[text], by rw [hb]; exact .cons ht .nil, by simp [String.append_assoc]⟩
  · simp [throw_eq_ok] at h

/-- The guards of parameters. -/
theorem Accounts.guards {level : Nat} {given : List (String × Expr)}
    {texts : List (String × String)}
    (h : List.Forall₂ (fun given text => given.1 = text.1 ∧
      given.2.render ⟨naming, scope⟩ = .ok text.2) given texts) :
    Accounts naming n (once (given.map (·.2))) ((Outline.guards texts).textAt level)
      (guardsTagged ⟨naming, scope⟩ level n given) := by
  induction h generalizing n with
  | nil => exact .plain ""
  | @cons given text rest texts first _ ih =>
    obtain ⟨name, value⟩ := given
    obtain ⟨_, text⟩ := text
    obtain ⟨rfl, hv⟩ := first
    have assignment := (plain (name ++ " = ")).append (slot (n := n) hv)
    exact (plain _).line _ ((assignment.only .other).append ((plain "end").line _ ih))

/-- Lines without calls. -/
theorem Accounts.lines (level : Nat) (texts : List String) :
    Accounts naming n [] ((Outline.flat texts).textAt level) (linesAt level texts) := by
  induction texts with
  | nil => exact .plain ""
  | cons text texts ih => exact (plain text).line _ ih

theorem spells_assignmentTagged {form : AssignmentForm} {m value : Tagged}
    {p : Address → String → Prop} {text given : String} (hm : m.Spells p text)
    (hv : value.Spells p given) :
    (assignmentTagged form m value).Spells p (assignmentLine form text given) := by
  cases form with
  | declare => exact (((Tagged.Spells.plain "var ").append hm).append (.plain " = ")).append hv
  | assign => exact (hm.append (.plain " = ")).append hv

theorem count_assignmentTagged (form : AssignmentForm) (m value : Tagged) (a : Address) :
    (assignmentTagged form m value).count a = m.count a + value.count a := by
  cases form <;> simp [assignmentTagged]

/-- A single assignment. -/
theorem Accounts.assignment {form : AssignmentForm} {target value : Expr} {given : String}
    (ht : renderTarget ⟨naming, scope⟩ target = .ok text)
    (hv : value.render ⟨naming, scope⟩ = .ok given) :
    Accounts naming n (once [target, value]) (assignmentLine form text given)
      (assignmentTagged form ((targetTagged ⟨naming, scope⟩ target).shift n)
        (Berrify.slot ⟨naming, scope⟩ (n + 1) value)) := by
  have target := Accounts.target (n := n) ht
  cases form with
  | declare => exact (((plain "var ").append target).append (plain " = ")).append (slot hv)
  | assign => exact (target.append (plain " = ")).append (slot hv)

/-- Each target takes the value once more. -/
theorem targets_assigned {site : Site} {value : String} {kind : Container} {targets : List Expr}
    {s s' : Scope} {o : Outline} (h : Emits site (.targets value kind targets) s s' o)
    (level : Nat) {n : Nat} {m : Tagged} {p : Address → String → Prop}
    (hp : ∀ a text, WrittenFor site.style.naming n (once targets) a text → p a text)
    (hm : m.Spells p value) :
    (targetsTagged site level m kind n targets s).Spells p (o.textAt level) ∧
      ∀ a, (targetsTagged site level m kind n targets s).count a =
        copiesIn n (once targets) a + targets.length * m.count a := by
  induction targets generalizing n s o with
  | nil =>
    cases h
    exact ⟨.plain "", by simp [once, targetsTagged]⟩
  | cons target rest ih =>
    cases h with
    | targetsCons ht hrest =>
      have first := Accounts.target (n := n) ht
      have later := ih hrest (n := n + 1) fun a text ha => hp a text (.right [⟨target, 1⟩] ha)
      have here := first.spells.mono fun a text ha => hp a text (.left (once rest) ha)
      refine ⟨(spells_lineAt (spells_assignmentTagged here hm) level).append later.1, fun a => ?_⟩
      have split : copiesIn n (once (target :: rest)) a =
          copiesIn n [⟨target, 1⟩] a + copiesIn (n + 1) (once rest) a :=
        copiesIn_append n [⟨target, 1⟩] (once rest) a
      have counted : (Tagged.shift n (targetTagged (site.view s) target)).count a =
          copiesIn n [⟨target, 1⟩] a := first.count a
      rw [targetsTagged, Tagged.count_append, count_lineAt, count_assignmentTagged, counted,
        later.2, split, List.length_cons, Nat.succ_mul]
      omega

/-- An assignment writes its targets once, and its value for each of them. -/
theorem Accounts.assign {site : Site} {value : Expr} {targets : List Expr} {s s' : Scope}
    {o : Outline} (hv : value.render (site.view s) = .ok text)
    (h : Emits site (.targets text (.ofValue site.style.naming value) targets) s s' o)
    (level n : Nat) :
    Accounts site.style.naming n (once targets ++ [⟨value, targets.length⟩]) (o.textAt level)
      (targetsTagged site level (Berrify.slot (site.view s) (n + targets.length) value)
        (.ofValue site.style.naming value) n targets s) := by
  have spelled : (Berrify.slot (site.view s) (n + targets.length) value).Spells
      (WrittenFor site.style.naming n (once targets ++ [⟨value, targets.length⟩])) text := by
    rw [← length_once targets]
    exact (spells_place (spells_tag hv) _).mono fun _ _ => .right (once targets)
  obtain ⟨spells, count⟩ := targets_assigned h level
    (fun _ _ => .left [⟨value, targets.length⟩]) spelled
  refine ⟨spells, fun a => ?_⟩
  rw [count, copiesIn_append, length_once, ← count_place (Expr.count_tag (site.view s) value)]
  rfl

end

/-! ## Every part of a script accounts for its calls -/

theorem blockPlaces_singleton (inClass : Bool) (line : Nat) (stmt : Stmt) :
    blockPlaces inClass [⟨line, stmt⟩] = stmt.places inClass := by
  rw [blockPlaces, blockPlaces, List.append_nil]

theorem otherwiseTagged_of_not_isElif {b : Block} (h : isElif b = false) (site : Site)
    (level n : Nat) (s : Scope) :
    otherwiseTagged site level b n s =
      clauseTagged level "else" b (blockTagged site (level + 1) b n s) := by
  cases b with
  | nil => rfl
  | cons head rest =>
    obtain ⟨line, stmt⟩ := head
    rw [otherwiseTagged, blockTagged]
    · rfl
    · rintro _ _ _ rfl rfl
      cases h

/-- The lines of a part of a script have the calls of its places as often as they say. -/
def Phrase.Accounted (site : Site) (s : Scope) (o : Outline) : Phrase → Prop
  | .stmt one => ∀ level n, Accounts site.style.naming n
      (one.places (site.body == .classBody)) (o.textAt level) (one.tagged site level n s)
  | .block b => ∀ level n, Accounts site.style.naming n
      (blockPlaces (site.body == .classBody) b) (o.textAt level) (blockTagged site level b n s)
  | .otherwise b => ∀ level n, Accounts site.style.naming n
      (blockPlaces (site.body == .classBody) b) (o.textAt level) (otherwiseTagged site level b n s)
  | .clause keyword b => ∀ level n, Accounts site.style.naming n
      (blockPlaces (site.body == .classBody) b) (o.textAt level)
      (clauseTagged level keyword b (blockTagged site (level + 1) b n s))
  | .handlers hs => ∀ level n, Accounts site.style.naming n
      (handlersPlaces (site.body == .classBody) hs) (o.textAt level)
      (handlersTagged site level hs n s)
  | .targets .. => True

/-- Every part of a script that was emitted accounts for its calls. The targets of an assignment do
so together with its value (`Accounts.assign`). -/
theorem Emits.accounted {site : Site} {phrase : Phrase} {s s' : Scope} {o : Outline}
    (h : Emits site phrase s s' o) : phrase.Accounted site s o := by
  induction h with
  | @classDef site name bases body s s' header o hh _ ih =>
    obtain ⟨texts, ht, rfl⟩ := classHeader_eq_ok hh
    intro level n
    have inner := (ih (level + 1) (n + bases.length)).renumber (k := n + (once bases).length)
      (by rw [length_once])
    exact ((Accounts.plain ("class " ++ name)).append (.bases ht)).line _
      ((Accounts.lines (level + 1) (memberTexts site.style body)).appendOutline inner).closedBlock
  | @functionDef site name params decorators body s s' isStatic texts o hs _ ht _ ih =>
    obtain ⟨rfl, hd⟩ := staticDecorators_of_ok hs
    intro level n
    have inner := (ih (level + 1) (n + decorators.length +
      (defaults (writtenParams site (isDecoratedStatic decorators) params)).length)).renumber
        (k := n + decorators.length + (once ((defaults
          (writtenParams site (isDecoratedStatic decorators) params)).map (·.2))).length)
        (by rw [length_once, List.length_map])
    have inside := ((Accounts.guards ht).appendOutline inner).closedBlock
    -- decorators are bare names here, so their places are silent
    exact .silent decorators (fun e he => by rw [hd e he]; exact ⟨rfl, rfl⟩)
      ((Accounts.plain _).line .other inside)
  | assign hv ht _ => exact .assign hv ht
  | declareValue hv ht => exact fun level n => (Accounts.assignment ht hv).only _
  | @declareFirst site id hint s hd =>
    intro level n
    have written : bareTagged level s (.name id) = lineAt level (.plain ("var " ++ id)) := by
      rw [bareTagged, if_neg (by simp [hd])]
    rw [Stmt.tagged, written]
    exact (Accounts.plain _).only _
  | @declareAgain site id hint s hd =>
    intro level n
    rw [Stmt.tagged, bareTagged, if_pos hd]
    exact .plain ""
  | @declareField site target hint s text hb _ =>
    intro level n
    have written : bareTagged level s target = .plain "" := by
      cases target <;> first | rfl | cases hb
    rw [Stmt.tagged, written]
    exact .plain ""
  | @update site target value op s text token given ht hop hv =>
    intro level n
    have line := ((Accounts.target (n := n) ht).append (.plain (" " ++ token ++ "= "))).append
      (.slot hv)
    have joined : text ++ " " ++ token ++ "= " ++ given =
        text ++ (" " ++ token ++ "= ") ++ given := by
      simp [String.append_assoc]
    rw [Stmt.tagged, hop, joined]
    exact line.only .other
  | @branch site test body orelse s s₁ s₂ text o₁ o₂ ht h₁ _ ih₁ ih₂ =>
    obtain rfl := h₁.performs.1
    exact fun level n => ((Accounts.plain "if ").append (.condition ht)).line _
      ((ih₁ (level + 1) (n + 1)).append (ih₂ level _).closed)
  | @forEach site target iter body orelse s s' key header o hh _ ih =>
    intro level n
    have looped := (Accounts.loop (n := n) hh).line (.introduces [key])
      (ih (level + 1) (n + 2)).closedBlock
    obtain ⟨rfl, rfl, -⟩ := loopHeader_eq_ok.1 hh
    rw [Stmt.places, blockPlaces, List.append_nil]
    exact looped
  | @whileLoop site test body orelse s s₁ s₂ text o₁ o₂ ht h₁ _ ih₁ ih₂ =>
    obtain rfl := h₁.performs.1
    exact fun level n => ((Accounts.plain "while ").append (.condition ht)).line _
      ((ih₁ (level + 1) (n + 1)).append (ih₂ level _).closed)
  | @attempt site body handlers cleanup s s₁ s₂ s₃ o₁ o₂ o₃ h₁ h₂ _ ih₁ ih₂ ih₃ =>
    obtain rfl := h₁.performs.1
    obtain rfl := h₂.performs.1
    exact fun level n => (Accounts.plain "try").line _
      ((ih₁ (level + 1) n).append ((ih₂ level _).appendOutline (ih₃ level _)).closed)
  | leave => exact fun level n => (Accounts.plain "return").only _
  | giveBack hv => exact fun level n => ((Accounts.plain "return ").append (.slot hv)).only _
  | @docText site text s =>
    intro level n
    exact .silent [.constant (.str text)] (by simp [Expr.isCall, Expr.parts]) (.plain "")
  | @expr site value s text hd hv =>
    intro level n
    rw [Stmt.tagged, if_neg (by simp [hd])]
    exact (Accounts.slot hv).only _
  | pass => exact fun level n => .plain ""
  | leaveLoop => exact fun level n => (Accounts.plain "break").only _
  | nextRound => exact fun level n => (Accounts.plain "continue").only _
  | importNames _ => exact fun level n => .lines level _
  | globalNames => exact fun level n => (Accounts.plain _).only _
  | blockNil => exact fun level n => .plain ""
  | blockCons h₁ _ ih₁ ih₂ =>
    obtain rfl := h₁.performs.1
    exact fun level n => (ih₁ level n).appendOutline (ih₂ level _)
  | @otherwiseElif site line test body orelse s s₁ s₂ text o₁ o₂ ht h₁ _ ih₁ ih₂ =>
    obtain rfl := h₁.performs.1
    intro level n
    rw [blockPlaces_singleton]
    exact ((Accounts.plain "elif ").append (.condition ht)).line _
      ((ih₁ (level + 1) (n + 1)).append (ih₂ level _))
  | otherwiseElse he _ ih =>
    intro level n
    rw [otherwiseTagged_of_not_isElif he]
    exact ih level n
  | clauseNil => exact fun level n => .plain ""
  | @clauseCons site keyword b s s' o hne _ ih =>
    intro level n
    have inner : (Outline.block o .nil).textAt level = o.textAt (level + 1) := by
      simp [Outline.textAt]
    rw [clauseTagged, if_neg (by simpa using hne)]
    exact (Accounts.plain keyword).line _ (inner ▸ ih (level + 1) n)
  | handlersNil => exact fun level n => .plain ""
  | handlersBare h₁ _ ih₁ ih₂ =>
    obtain rfl := h₁.performs.1
    exact fun level n => (Accounts.plain "except ..").line _
      ((ih₁ (level + 1) n).append (ih₂ level _))
  | handlersNamed h₁ _ ih₁ ih₂ =>
    obtain rfl := h₁.performs.1
    exact fun level n => (Accounts.plain _).line _ ((ih₁ (level + 1) n).append (ih₂ level _))
  | targetsNil => trivial
  | targetsCons _ _ _ => trivial

/-! ## Scripts -/

theorem accounts_of_emitScript {style : Style} {script : Block} {text : String}
    (h : emitScript style script = .ok text) :
    Accounts style.naming 0 (blockPlaces false script) text (scriptTagged style script) := by
  obtain ⟨s, o, he, rfl⟩ := emitScript_eq_ok h
  exact o.textAt_zero ▸ he.accounted 0 0

/-- A script that could be emitted, written with tags, has the text it was emitted to. What is
tagged with the address of a call is the text of that call. Unless the call is left out it is
there, and as often as the rewriting of assignments and comparisons repeats its place : exactly once
if that repeats nothing. -/
theorem calls_written {style : Style} {script : Block} {text : String}
    (h : emitScript style script = .ok text) :
    (scriptTagged style script).text = text ∧
      (scriptTagged style script).Stretches
        (WrittenFor style.naming 0 (blockPlaces false script)) ∧
      ∀ k place a call, (blockPlaces false script)[k]? = some place → 0 < place.factor →
        place.expr.at? a = some call → call.isCall = true → place.expr.isLeftOut a = false →
          (scriptTagged style script).count (k :: a) = place.factor * place.expr.copies a ∧
            0 < (scriptTagged style script).count (k :: a) := by
  have accounts := accounts_of_emitScript h
  refine ⟨accounts.spells.text, accounts.spells.stretches, ?_⟩
  intro k place a call hk hf ha hc hout
  have counted : (scriptTagged style script).count (k :: a) =
      place.factor * place.expr.copies a := by
    rw [accounts.count, copiesIn, if_pos (Nat.zero_le k), Nat.sub_zero, hk, Option.elim_some]
  exact ⟨counted, counted ▸ Nat.mul_pos hf (Expr.copies_pos ha hc hout)⟩

/-- A loop over the keys of what a call gives, whose body tests a call against two values. -/
theorem calls_written_of_loop :
    let call (id : String) : Expr := .call (.name id) [] []
    let script : Block := [⟨1, .forEach (.name "k") (.call (.attribute (call "f") "keys") [] [])
      [⟨2, .expr (.compare (call "g") [.member] [.list [call "h", .name "b"]])⟩] []⟩]
    emitScript {} script = .ok "for k : f().keys()\n    g() == h() || g() == b\nend\n" ∧
      (scriptTagged {} script).count [1, 0, 0] = 1 ∧
      (scriptTagged {} script).count [2, 0] = 2 ∧
      (scriptTagged {} script).count [2, 1, 0] = 1 := by
  intro call script
  have run : emitScript {} script =
      .ok "for k : f().keys()\n    g() == h() || g() == b\nend\n" := rfl
  have written := (calls_written run).2.2
  exact ⟨run, (written 1 _ [0, 0] _ rfl Nat.one_pos rfl rfl rfl).1,
    (written 2 _ [0] _ rfl Nat.one_pos rfl rfl rfl).1,
    (written 2 _ [1, 0] _ rfl Nat.one_pos rfl rfl rfl).1⟩

/-- The value of an assignment to two targets is a call, and it is written twice. -/
theorem value_written_twice :
    let call : Expr := .call (.name "f") [] []
    let script : Block := [⟨1, .assign [.name "a", .name "b"] call⟩]
    emitScript {} script = .ok "var a = f()\nvar b = f()\n" ∧
      (blockPlaces false script)[2]? = some ⟨call, 2⟩ ∧
      (scriptTagged {} script).text = "var a = f()\nvar b = f()\n" ∧
      (scriptTagged {} script).count [2] = 2 := by
  intro call script
  have run : emitScript {} script = .ok "var a = f()\nvar b = f()\n" := rfl
  have accounts := accounts_of_emitScript run
  exact ⟨run, rfl, accounts.spells.text, accounts.count [2]⟩

end Berrify
