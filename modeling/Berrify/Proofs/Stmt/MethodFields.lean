import Berrify.Proofs.Expr.Assignment
import Berrify.Proofs.Stmt.Declarations
import Berrify.Proofs.Stmt.Fields

/-!
# Fields that methods assign to

The emitter drops the receiver of a function if the innermost body around it is a class. The member
list is made by another traversal, which finds the functions that stand directly in the class body.
The two disagree on a function in a branch, a loop or an attempt of the class body : it is a method,
and the fields that it assigns to are not looked for.

`Outline.fieldsWritten` reads the fields that methods assign to from the text of their lines. Every
part of a class body has those that its source asks for (`Emits.writes`), so the member list of a
class misses none of them exactly if the statements of the class body that are no functions
themselves add none (`method_fields_declared_iff`).
-/

namespace Berrify

open Text Identifier

/-! ## The lines of targets -/

theorem mem_assignmentSigns {op : BinaryOp} {token : String} (h : op.target? = some token) :
    token ++ "=" ∈ assignmentSigns := by
  cases op <;> cases h <;> decide

/-- A line that assigns to a target reads as an assignment to the field of `self` that the target
is, if it is one. -/
theorem assignedField?_target {view : View} (hn : view.naming.Named) {target : Expr}
    (hw : target.Named) {text : String} (h : renderTarget view target = .ok text)
    {sign : String} (hs : sign ∈ assignmentSigns) (value : String) :
    (assignedField? (text ++ " " ++ sign ++ " " ++ value)).toList = fieldOf target := by
  match target with
  | .name id =>
    cases h
    have silent := assignedField?_name hw.here (sign ++ " " ++ value)
    have shape : text ++ " " ++ sign ++ " " ++ value = text ++ (" " ++ (sign ++ " " ++ value)) := by
      simp only [String.append_assoc]
    rw [shape, silent]
    rfl
  | .attribute receiver attr =>
    obtain ⟨front, hr, rfl⟩ := Expr.write_attribute_eq_ok.1
      (show (Expr.attribute receiver attr).write view .whole = .ok text from h)
    have hword := hw.here
    have inner : receiver.Named := hw.inside (by simp [Expr.parts])
    by_cases hself : receiver = .name "self"
    · subst hself
      cases hr
      rw [assignedField?_self hword hs]
      rfl
    · have none : fieldOf (.attribute receiver attr) = [] := by
        unfold fieldOf
        split
        · rename_i he
          cases he
          exact absurd rfl hself
        · rfl
      rw [none, Option.toList_eq_nil_iff]
      cases hf : assignedField? (front ++ "." ++ attr ++ " " ++ sign ++ " " ++ value) with
      | none => rfl
      | some field =>
        have shape : front ++ "." ++ attr ++ " " ++ sign ++ " " ++ value =
            front ++ ("." ++ attr ++ (" " ++ (sign ++ " " ++ value))) := by
          simp only [String.append_assoc]
        rw [shape] at hf
        have front_self := (Expr.write_solid hn inner hr).eq_self hword hf
        exact absurd (Expr.eq_name_of_write_operand inner (front_self ▸ hr)) hself
  | .subscript receiver index =>
    obtain ⟨b, -, a, ha, rfl⟩ := renderTarget_subscript_eq_ok.1 h
    have front := Expr.write_unassigned hn (hw.inside (by simp [Expr.parts])) ha
    have silent := (front.bracket (b ++ "]" ++ " " ++ sign ++ " " ++ value)).assignedField?
    have shape : a ++ "[" ++ b ++ "]" ++ " " ++ sign ++ " " ++ value =
        a ++ ("[" ++ (b ++ "]" ++ " " ++ sign ++ " " ++ value)) := by
      simp only [String.append_assoc]
    rw [shape, silent]
    rfl
  | .constant _ | .call .. | .binary .. | .unary .. | .boolean .. | .compare .. | .conditional ..
  | .dict _ | .list _ | .tuple _ | .set _ | .slice .. | .lambda .. | .template _ | .starred _
  | .unsupported _ => simp [renderTarget, throw_eq_ok] at h

theorem assignedField?_assignment {view : View} (hn : view.naming.Named) {target : Expr}
    (hw : target.Named) {text : String} (h : renderTarget view target = .ok text) (s : Scope)
    (kind : Container) (value : String) :
    (assignedField? (assignmentLine (s.assign target kind).2 text value)).toList =
      fieldOf target := by
  have plain := assignedField?_target hn hw h (by decide : "=" ∈ assignmentSigns) value
  have shape : text ++ " " ++ "=" ++ " " ++ value = text ++ " = " ++ value := by
    apply String.toList_injective
    simp
  rw [shape] at plain
  cases hb : isBareName target with
  | false =>
    rw [(s.assign_of_not_isBareName kind hb).1]
    exact plain
  | true =>
    obtain ⟨id, rfl⟩ := exists_of_isBareName hb
    cases (s.assign (.name id) kind).2 with
    | assign => exact plain
    | declare =>
      rw [assignmentLine, String.append_assoc, String.append_assoc,
        assignedField?_foreign (by decide)]
      rfl

/-! ## The fields of an outline -/

namespace Outline

/-- The fields of `self` that lines assign to, in a method or else in the methods of a class body.
The line before a body tells a function with a receiver from other bodies. -/
def fieldsWritten (inMethod : Bool) (before : String) : Outline → List String
  | nil => []
  | line text _ rest =>
    (if inMethod then (assignedField? text).toList else []) ++ rest.fieldsWritten inMethod text
  | block inner rest => inner.fieldsWritten inMethod before ++ rest.fieldsWritten inMethod before
  | body _ inner rest =>
    (if startsWith "def " before then inner.fieldsWritten true "" else []) ++
      rest.fieldsWritten inMethod before

/-- Behind whatever line, an outline assigns to certain fields. -/
def Writes (inMethod : Bool) (o : Outline) (fields : List String) : Prop :=
  ∀ before, o.fieldsWritten inMethod before = fields

variable {inMethod : Bool} {o p : Outline} {fields others : List String}

theorem writes_nil : Writes inMethod nil [] :=
  fun _ => rfl

theorem Writes.append (ho : o.Writes inMethod fields) (hp : p.Writes inMethod others) :
    (o ++ p).Writes inMethod (fields ++ others) := by
  have split (o : Outline) (before : String) :
      (o.append p).fieldsWritten inMethod before = o.fieldsWritten inMethod before ++ others := by
    induction o generalizing before with
    | nil => exact hp before
    | line text role rest ih => simp [Outline.append, fieldsWritten, ih]
    | block inner rest _ ih => simp [Outline.append, fieldsWritten, ih]
    | body params inner rest _ ih => simp [Outline.append, fieldsWritten, ih]
  intro before
  exact (split o before).trans (by rw [ho before])

theorem Writes.line {text : String} {role : Role} (ho : o.Writes inMethod others)
    (h : (assignedField? text).toList = fields) :
    (line text role o).Writes inMethod ((if inMethod then fields else []) ++ others) := by
  intro before
  rw [fieldsWritten, h, ho]

theorem writes_only {text : String} {role : Role} (h : (assignedField? text).toList = fields) :
    (only text role).Writes inMethod (if inMethod then fields else []) := by
  intro before
  rw [only, writes_nil.line h before, List.append_nil]

/-- A line that assigns to nothing. -/
theorem Writes.silent {text : String} {role : Role} (ho : o.Writes inMethod fields)
    (h : assignedField? text = none) : (Outline.line text role o).Writes inMethod fields := by
  intro before
  rw [fieldsWritten, h, ho]
  simp

theorem Writes.block (ho : o.Writes inMethod fields) (hp : p.Writes inMethod others) :
    (block o p).Writes inMethod (fields ++ others) := by
  intro before
  rw [fieldsWritten, ho, hp]

theorem writes_closing : closing.Writes inMethod [] :=
  writes_nil.silent (by decide)

theorem Writes.closed (ho : o.Writes inMethod fields) :
    (o ++ closing).Writes inMethod fields := by
  have both := ho.append (show closing.Writes inMethod [] from writes_closing)
  rwa [List.append_nil] at both

/-- A function with a receiver. -/
theorem Writes.method {header : String} {role : Role} {params : List String}
    (hheader : assignedField? header = none) (hdef : startsWith "def " header = true)
    (ho : o.Writes true fields) :
    (Outline.line header role (.body params o closing)).Writes inMethod fields := by
  intro before
  rw [fieldsWritten, hheader, fieldsWritten, hdef, ho, writes_closing]
  simp

/-- A body that is not that of a function with a receiver. -/
theorem writes_skipped {header : String} {role : Role} {params : List String} (o : Outline)
    (hheader : assignedField? header = none) (hdef : startsWith "def " header = false) :
    (Outline.line header role (.body params o closing)).Writes inMethod [] := by
  intro before
  rw [fieldsWritten, hheader, fieldsWritten, hdef, writes_closing]
  simp

theorem writes_flat {texts : List String} (h : ∀ text ∈ texts, assignedField? text = none) :
    (flat texts).Writes inMethod [] := by
  induction texts with
  | nil => exact writes_nil
  | cons text texts ih =>
    exact (ih fun t ht => h t (List.mem_cons_of_mem text ht)).silent (h text List.mem_cons_self)

end Outline

/-- The guards of parameters assign to names. -/
theorem writes_guards {given : List (String × Expr)} {view : View}
    {texts : List (String × String)}
    (h : List.Forall₂ (fun given text => given.1 = text.1 ∧ given.2.render view = .ok text.2)
      given texts)
    (hw : ∀ g ∈ given, isWord g.1 = true) (inMethod : Bool) :
    (Outline.guards texts).Writes inMethod [] := by
  induction h with
  | nil => exact Outline.writes_nil
  | @cons g text given texts hg _ ih =>
    obtain ⟨name, value⟩ := text
    obtain ⟨rfl, -⟩ := hg
    have test : assignedField? ("if " ++ g.1 ++ " == nil") = none := by
      rw [String.append_assoc]
      exact assignedField?_foreign (by decide) _
    have default : assignedField? (g.1 ++ " = " ++ value) = none := by
      have silent := assignedField?_name (hw g List.mem_cons_self) ("= " ++ value)
      have shape : g.1 ++ " = " ++ value = g.1 ++ (" " ++ ("= " ++ value)) := by
        apply String.toList_injective
        simp
      rw [shape, silent]
    have rest := ih fun g' hm => hw g' (List.mem_cons_of_mem g hm)
    exact ((Outline.writes_nil.silent default).block
      (rest.silent (by decide))).silent test

/-! ## The fields of the source -/

mutual
/-- The fields of `self` that lines are written for, in a method or else in the methods of a class
body. A declaration without a value has no line. -/
def Stmt.fieldsWritten (inMethod : Bool) : Stmt → List String
  | .assign targets _ => if inMethod then targets.flatMap fieldOf else []
  | .declare target _ (some _) => if inMethod then fieldOf target else []
  | .update target _ _ => if inMethod then fieldOf target else []
  | .branch _ body orelse => fieldsWrittenIn inMethod body ++ fieldsWrittenIn inMethod orelse
  | .forEach _ _ body orelse => fieldsWrittenIn inMethod body ++ fieldsWrittenIn inMethod orelse
  | .whileLoop _ body orelse => fieldsWrittenIn inMethod body ++ fieldsWrittenIn inMethod orelse
  | .attempt body handlers orelse cleanup =>
    fieldsWrittenIn inMethod body ++ fieldsWrittenInHandlers inMethod handlers ++
      fieldsWrittenIn inMethod orelse ++ fieldsWrittenIn inMethod cleanup
  | .functionDef _ _ decorators body =>
    if inMethod || !isDecoratedStatic decorators then fieldsWrittenIn true body else []
  | _ => []
/-- The fields that lines are written for in a block. -/
def fieldsWrittenIn (inMethod : Bool) : List (Located Stmt) → List String
  | [] => []
  | ⟨_, stmt⟩ :: rest => stmt.fieldsWritten inMethod ++ fieldsWrittenIn inMethod rest
/-- The fields that lines are written for in handlers. -/
def fieldsWrittenInHandlers (inMethod : Bool) :
    List (Handler (List (Located Stmt))) → List String
  | [] => []
  | ⟨_, _, body⟩ :: rest => fieldsWrittenIn inMethod body ++ fieldsWrittenInHandlers inMethod rest
end

/-- The fields that lines are written for in a part of a script. -/
def Phrase.fieldsWritten (inMethod : Bool) : Phrase → List String
  | .stmt s => s.fieldsWritten inMethod
  | .block b => fieldsWrittenIn inMethod b
  | .otherwise b => fieldsWrittenIn inMethod b
  | .clause _ b => fieldsWrittenIn inMethod b
  | .handlers hs => fieldsWrittenInHandlers inMethod hs
  | .targets _ _ ts => if inMethod then ts.flatMap fieldOf else []

/-! ## Names -/

/-- The names that a statement assigns to or declares as parameters are names, and so are those in
what it evaluates only. Nothing else can stand at the front of a line that has no keyword. -/
def Stmt.Named : Stmt → Prop
  | .assign targets _ => ∀ target ∈ targets, target.Named
  | .declare target _ _ => target.Named
  | .update target _ _ => target.Named
  | .expr value => value.Named
  | .functionDef _ params _ _ => ∀ param ∈ params, isWord param.name = true
  | _ => True

/-- All names in a block are names. -/
def BlockNamed (block : Block) : Prop :=
  ∀ stmt, Nested Stmt.blocks stmt block → stmt.node.Named

theorem blockNamed_nil : BlockNamed [] :=
  fun stmt h => absurd h (not_nested_nil stmt)

theorem blockNamed_cons {stmt : Located Stmt} {rest : Block} :
    BlockNamed (stmt :: rest) ↔
      (stmt.node.Named ∧ ∀ block ∈ stmt.node.blocks, BlockNamed block) ∧ BlockNamed rest :=
  forall_nested_cons

/-- What a part of a script has to satisfy. -/
def Phrase.Named : Phrase → Prop
  | .stmt s => s.Named ∧ ∀ block ∈ s.blocks, BlockNamed block
  | .block b => BlockNamed b
  | .otherwise b => BlockNamed b
  | .clause keyword b => (keyword = "else" ∨ keyword = "finally") ∧ BlockNamed b
  | .handlers hs => ∀ handler ∈ hs, BlockNamed handler.body
  | .targets _ _ ts => ∀ target ∈ ts, target.Named

/-! ## Every part of a class body -/

theorem startsWith_def_of_head {text : String} (c : Char) (h : text.toList.head? = some c)
    (hc : c ≠ 'd') : startsWith "def " text = false := by
  rw [Bool.eq_false_iff]
  intro hd
  obtain ⟨rest, hr⟩ := startsWith_eq_true hd
  rw [hr] at h
  exact hc (Option.some.inj h).symm

theorem startsWith_functionHeader (isStatic : Bool) (name : String) (params : List Param) :
    startsWith "def " (functionHeader isStatic name params) = !isStatic := by
  cases isStatic with
  | true => exact startsWith_def_of_head 's' (by simp [functionHeader]) (by decide)
  | false =>
    rw [functionHeader, if_neg Bool.false_ne_true, String.append_assoc, String.append_assoc,
      String.append_assoc, startsWith_append]
    rfl

theorem assignedField?_functionHeader (isStatic : Bool) (name : String) (params : List Param) :
    assignedField? (functionHeader isStatic name params) = none := by
  rw [functionHeader, String.append_assoc, String.append_assoc, String.append_assoc]
  cases isStatic with
  | true => exact assignedField?_foreign (by decide) _
  | false => exact assignedField?_foreign (by decide) _

theorem exists_of_classHeader {view : View} {name header : String} {bases : List Expr}
    (h : classHeader view name bases = .ok header) : ∃ rest, header = "class " ++ rest := by
  unfold classHeader at h
  split at h
  · cases h
    exact ⟨name, rfl⟩
  · simp only [bind_eq_ok, pure_eq_ok] at h
    obtain ⟨text, -, rfl⟩ := h
    exact ⟨name ++ " : " ++ text, by simp only [String.append_assoc]⟩
  · simp [throw_eq_ok] at h

theorem isWord_defaults {site : Site} {isStatic : Bool} {params : List Param}
    (h : ∀ param ∈ params, isWord param.name = true) :
    ∀ given ∈ defaults (writtenParams site isStatic params), isWord given.1 = true := by
  intro given hm
  obtain ⟨param, hp, hname, -⟩ := mem_defaults hm
  unfold writtenParams ownParams at hp
  split at hp
  · exact hname ▸ h param (List.mem_of_mem_drop hp)
  · exact hname ▸ h param hp

/-- The lines of a part of a method, or of a class body, assign to the fields that the source asks
for. -/
theorem Emits.writes {site : Site} {phrase : Phrase} {s s' : Scope} {o : Outline}
    (h : Emits site phrase s s' o) (hn : site.style.naming.Named) (hw : phrase.Named)
    {inMethod : Bool} (hbody : site.body = if inMethod then .functionBody else .classBody) :
    o.Writes inMethod (phrase.fieldsWritten inMethod) := by
  induction h generalizing inMethod with
  | classDef hh _ _ =>
    obtain ⟨rest, rfl⟩ := exists_of_classHeader hh
    exact Outline.writes_skipped _ (assignedField?_foreign (by decide) _)
      (startsWith_def_of_head 'c' (by simp) (by decide))
  | @functionDef site name params decorators body s s' isStatic texts o hs _ hg _ ih =>
    have inner : (Outline.guards texts ++ o).Writes true (fieldsWrittenIn true body) :=
      (writes_guards hg (isWord_defaults hw.1) true).append
        (ih hn (hw.2 body (by simp [Stmt.blocks])) rfl)
    obtain ⟨hstatic, -⟩ := staticDecorators_of_ok hs
    have entered : (inMethod || !isDecoratedStatic decorators) =
        startsWith "def " (functionHeader (isStatic && site.body == .classBody)
          (site.style.naming.specialName name) (writtenParams site isStatic params)) := by
      rw [startsWith_functionHeader, hbody, ← hstatic]
      cases inMethod <;> cases isStatic <;> rfl
    have silent := assignedField?_functionHeader (isStatic && site.body == .classBody)
      (site.style.naming.specialName name) (writtenParams site isStatic params)
    rw [Phrase.fieldsWritten, Stmt.fieldsWritten, entered]
    split
    · exact .method silent ‹_› inner
    · exact Outline.writes_skipped _ silent (Bool.eq_false_iff.2 ‹_›)
  | assign _ _ ih => exact ih hn hw.1 hbody
  | declareValue _ ht => exact Outline.writes_only (assignedField?_assignment hn hw.1 ht _ _ _)
  | declareFirst _ => exact Outline.writes_nil.silent (assignedField?_foreign (by decide) _)
  | @update site target value op s text token given ht hop _ =>
    have reading := assignedField?_target hn hw.1 ht (mem_assignmentSigns hop) given
    have shape : text ++ " " ++ (token ++ "=") ++ " " ++ given =
        text ++ " " ++ token ++ "= " ++ given := by
      apply String.toList_injective
      simp
    exact Outline.writes_only (shape ▸ reading)
  | @branch site test body orelse s s₁ s₂ text o₁ o₂ _ _ _ ih₁ ih₂ =>
    have first := ih₁ hn (hw.2 body (by simp [Stmt.blocks])) hbody
    have second := ih₂ hn (hw.2 orelse (by simp [Stmt.blocks])) hbody
    exact (first.block second.closed).silent (assignedField?_foreign (by decide) _)
  | @forEach site target iter body orelse s s' key header o hh _ ih =>
    obtain ⟨rfl, -, receiver, keywords, -, text, -, rfl⟩ := loopHeader_eq_ok.1 hh
    have inner := ih hn (hw.2 body (by simp [Stmt.blocks])) hbody
    refine (inner.block Outline.writes_closing).silent ?_
    rw [String.append_assoc, String.append_assoc, String.append_assoc]
    exact assignedField?_foreign (by decide) _
  | @whileLoop site test body orelse s s₁ s₂ text o₁ o₂ _ _ _ ih₁ ih₂ =>
    have first := ih₁ hn (hw.2 body (by simp [Stmt.blocks])) hbody
    have second := ih₂ hn ⟨.inl rfl, hw.2 orelse (by simp [Stmt.blocks])⟩ hbody
    exact (first.block second.closed).silent (assignedField?_foreign (by decide) _)
  | @attempt site body handlers cleanup s s₁ s₂ s₃ o₁ o₂ o₃ _ _ _ ih₁ ih₂ ih₃ =>
    have first := ih₁ hn (hw.2 body (by simp [Stmt.blocks])) hbody
    have caught := ih₂ hn
      (fun handler hm => hw.2 handler.body (by simp [Stmt.blocks, List.mem_map_of_mem hm])) hbody
    have last := ih₃ hn ⟨.inr rfl, hw.2 cleanup (by simp [Stmt.blocks])⟩ hbody
    refine Outline.Writes.silent ?_ (by decide)
    simpa [Phrase.fieldsWritten, Stmt.fieldsWritten, fieldsWrittenIn] using
      first.block (caught.append last).closed
  | leave => exact Outline.writes_nil.silent (by decide)
  | giveBack _ => exact Outline.writes_nil.silent (assignedField?_foreign (by decide) _)
  | expr _ ht => exact Outline.writes_nil.silent (Expr.write_unassigned hn hw.1 ht).assignedField?
  | leaveLoop => exact Outline.writes_nil.silent (by decide)
  | nextRound => exact Outline.writes_nil.silent (by decide)
  | importNames _ =>
    refine Outline.writes_flat fun text hm => ?_
    obtain ⟨imported, -, rfl⟩ := List.mem_map.1 hm
    unfold importText
    split
    · rw [String.append_assoc, String.append_assoc]
      exact assignedField?_foreign (by decide) _
    · exact assignedField?_foreign (by decide) _
  | globalNames => exact Outline.writes_nil.silent (assignedField?_foreign (by decide) _)
  | blockCons _ _ ih₁ ih₂ =>
    obtain ⟨here, later⟩ := blockNamed_cons.1 hw
    exact (ih₁ hn here hbody).append (ih₂ hn later hbody)
  | @otherwiseElif site n test body orelse s s₁ s₂ text o₁ o₂ _ _ _ ih₁ ih₂ =>
    obtain ⟨⟨-, inside⟩, -⟩ := blockNamed_cons.1 hw
    have first := ih₁ hn (inside body (by simp [Stmt.blocks])) hbody
    have second := ih₂ hn (inside orelse (by simp [Stmt.blocks])) hbody
    refine Outline.Writes.silent ?_ (assignedField?_foreign (by decide) _)
    simpa [Phrase.fieldsWritten, Stmt.fieldsWritten, fieldsWrittenIn] using first.block second
  | otherwiseElse _ _ ih => exact ih hn ⟨.inl rfl, hw⟩ hbody
  | clauseCons _ _ ih =>
    have inner := (ih hn hw.2 hbody).block Outline.writes_nil
    rw [List.append_nil] at inner
    exact inner.silent (by rcases hw.1 with rfl | rfl <;> decide)
  | handlersBare _ _ ih₁ ih₂ =>
    have first := ih₁ hn (hw _ List.mem_cons_self) hbody
    have others := ih₂ hn (fun handler hm => hw handler (List.mem_cons_of_mem _ hm)) hbody
    exact (first.block others).silent (by decide)
  | handlersNamed _ _ ih₁ ih₂ =>
    have first := ih₁ hn (hw _ List.mem_cons_self) hbody
    have others := ih₂ hn (fun handler hm => hw handler (List.mem_cons_of_mem _ hm)) hbody
    exact (first.block others).silent (assignedField?_foreign (by decide) _)
  | @targetsCons site value text kind target rest s s' o ht _ ih =>
    have reading := assignedField?_assignment hn (hw target List.mem_cons_self) ht s kind value
    have later := ih hn (fun other hm => hw other (List.mem_cons_of_mem _ hm)) hbody
    cases inMethod with
    | true => exact later.line reading
    | false => exact later.line reading
  | declareAgain _ | declareField _ _ | docText | pass | blockNil | clauseNil | handlersNil =>
    exact Outline.writes_nil
  | targetsNil =>
    cases inMethod with
    | true => exact Outline.writes_nil
    | false => exact Outline.writes_nil

/-! ## Fields that are declared -/

theorem fieldsWrittenIn_eq (inMethod : Bool) (block : Block) :
    fieldsWrittenIn inMethod block = block.flatMap (·.node.fieldsWritten inMethod) := by
  induction block with
  | nil => rfl
  | cons stmt block ih => rw [fieldsWrittenIn, ih, List.flatMap_cons]

theorem fieldsWrittenInHandlers_eq (inMethod : Bool) (handlers : List (Handler Block)) :
    fieldsWrittenInHandlers inMethod handlers =
      (handlers.map (·.body)).flatMap (fieldsWrittenIn inMethod) := by
  induction handlers with
  | nil => rfl
  | cons handler handlers ih =>
    rw [fieldsWrittenInHandlers, ih, List.map_cons, List.flatMap_cons]

/-- In a method, the fields of a statement are those of its targets or those of its blocks. -/
theorem fieldsWritten_cases (stmt : Stmt) :
    stmt.fieldsWritten true = stmt.targets.flatMap fieldOf ∨
      stmt.fieldsWritten true = stmt.methodBlocks.flatMap (fieldsWrittenIn true) := by
  cases stmt with
  | declare target hint value =>
    cases value <;> simp [Stmt.fieldsWritten, Stmt.targets, Stmt.methodBlocks, Stmt.blocks]
  | _ =>
    simp [Stmt.fieldsWritten, Stmt.targets, Stmt.methodBlocks, Stmt.blocks,
      fieldsWrittenInHandlers_eq]

/-- A line is written only for a field that the statement assigns to. -/
theorem mem_assignedFields_of_written {stmt : Stmt} {field : String}
    (h : field ∈ stmt.fieldsWritten true) : field ∈ stmt.assignedFields := by
  induction stmt using Stmt.induction_on_blocks with
  | step stmt ih =>
    have found : field ∈ stmt.targets.flatMap fieldOf ∨
        field ∈ stmt.methodBlocks.flatMap assignedFieldsIn := by
      rcases fieldsWritten_cases stmt with heq | heq
      · exact .inl (heq ▸ h)
      · right
        rw [heq] at h
        obtain ⟨block, hb, hf⟩ := List.mem_flatMap.1 h
        rw [fieldsWrittenIn_eq] at hf
        obtain ⟨inner, hi, hf⟩ := List.mem_flatMap.1 hf
        refine List.mem_flatMap.2 ⟨block, hb, ?_⟩
        rw [assignedFieldsIn_eq]
        exact List.mem_flatMap.2
          ⟨inner, hi, ih block (Stmt.mem_blocks_of_mem_methodBlocks hb) inner hi hf⟩
    rcases assignedFields_cases stmt with ⟨leaf, heq⟩ | ⟨inner, heq⟩
    · rw [leaf, List.flatMap_nil] at found
      exact heq ▸ found.resolve_right List.not_mem_nil
    · rw [inner, List.flatMap_nil] at found
      exact heq ▸ found.resolve_left List.not_mem_nil

/-- Whether a statement is a function. -/
def Stmt.isFunction : Stmt → Bool
  | .functionDef .. => true
  | _ => false

/-- The fields that a function directly in a class body assigns to are in the member list. -/
theorem mem_memberFields_of_function {body : Block} {stmt : Located Stmt} (hm : stmt ∈ body)
    (hfunction : stmt.node.isFunction = true) {field : String}
    (hf : field ∈ stmt.node.fieldsWritten false) : field ∈ memberFields body := by
  obtain ⟨line, node⟩ := stmt
  cases node with
  | functionDef name params decorators inner =>
    have written : field ∈ fieldsWrittenIn true inner := by
      rw [Stmt.fieldsWritten] at hf
      split at hf
      · exact hf
      · cases hf
    rw [fieldsWrittenIn_eq] at written
    obtain ⟨one, ho, hf⟩ := List.mem_flatMap.1 written
    rw [memberFields, mem_firstOccurrences, methodFields_eq]
    exact List.mem_flatMap.2 ⟨_, hm, List.mem_flatMap.2 ⟨one, ho, mem_assignedFields_of_written hf⟩⟩
  | _ => cases hfunction

/-- A class is emitted with a line for its member list, if that is not empty, in front of the lines
of its body. -/
theorem exists_outline_of_class {site : Site} (hmembers : site.style.declareMembers = true)
    {name : String} {bases : List Expr} {body : Block} {s : Scope} {r : Emitted}
    (h : (Stmt.classDef name bases body).emit site s = .ok r) :
    ∃ header o s', classHeader (site.view s) name bases = .ok header ∧
      Emits (site.within .classBody) (.block body) (s.push .classBody) s' o ∧
      r.lines = .flush header ::
        nested ((if memberFields body = [] then []
          else [.flush ("var " ++ commaSeparated (memberFields body))]) ++ o.lines) ++
        [.flush "end"] := by
  simp only [Stmt.emit, bind_eq_ok, pure_eq_ok, orRefuse_eq_ok] at h
  obtain ⟨header, hheader, inner, hi, rfl⟩ := h
  obtain ⟨o, ho, hlines⟩ := emitBlock_follows _ body hi
  have members : memberLine site.style body = if memberFields body = [] then []
      else [.flush ("var " ++ commaSeparated (memberFields body))] := by
    rw [memberLine, hmembers]
    cases memberFields body <;> rfl
  exact ⟨header, o, inner.scope, hheader, ho, by rw [hlines, members]⟩

/-- A class is emitted with a line for its member list. The lines of its methods assign to the
fields that the source of these methods asks for, and all of them are in the member list if and only
if this is so for the methods that do not stand directly in the class body, but in a branch, a loop
or an attempt there. -/
theorem method_fields_declared_iff {site : Site} (hmembers : site.style.declareMembers = true)
    (hn : site.style.naming.Named) {name : String} {bases : List Expr} {body : Block}
    (hw : BlockNamed body) {s : Scope} {r : Emitted}
    (h : (Stmt.classDef name bases body).emit site s = .ok r) :
    ∃ header o s', classHeader (site.view s) name bases = .ok header ∧
      Emits (site.within .classBody) (.block body) (s.push .classBody) s' o ∧
      r.lines = .flush header ::
        nested ((if memberFields body = [] then []
          else [.flush ("var " ++ commaSeparated (memberFields body))]) ++ o.lines) ++
        [.flush "end"] ∧
      o.fieldsWritten false "" = fieldsWrittenIn false body ∧
      ((∀ field ∈ o.fieldsWritten false "", field ∈ memberFields body) ↔
        ∀ stmt ∈ body, stmt.node.isFunction = false →
          ∀ field ∈ stmt.node.fieldsWritten false, field ∈ memberFields body) := by
  obtain ⟨header, o, s', hheader, ho, hlines⟩ := exists_outline_of_class hmembers h
  have writes : o.Writes false (fieldsWrittenIn false body) := ho.writes hn hw rfl
  have written := writes ""
  refine ⟨header, o, s', hheader, ho, hlines, written, ?_⟩
  rw [written, fieldsWrittenIn_eq]
  constructor
  · intro all stmt hm _ field hf
    exact all field (List.mem_flatMap.2 ⟨stmt, hm, hf⟩)
  · intro deeper field hf
    obtain ⟨stmt, hm, hf⟩ := List.mem_flatMap.1 hf
    cases hfunction : stmt.node.isFunction with
    | true => exact mem_memberFields_of_function hm hfunction hf
    | false => exact deeper stmt hm hfunction field hf

/-- A class with a method that assigns to one field. -/
theorem method_fields_declared_iff_of_method :
    let assignment : Stmt := .assign [.attribute (.name "self") "x"] (.name "a")
    let method : Stmt := .functionDef "f" [{ name := "self" }, { name := "a" }] [] [⟨3, assignment⟩]
    let body : Block := [⟨2, method⟩]
    ∃ (r : Emitted) (o : Outline),
      (Stmt.classDef "A" [] body).emit ⟨{ declareMembers := true }, .script⟩
        (.start .lexical) = .ok r ∧
      r.lines = .flush "class A" :: nested ([.flush "var x"] ++ o.lines) ++ [.flush "end"] ∧
      o.fieldsWritten false "" = ["x"] ∧
      ∀ field ∈ o.fieldsWritten false "", field ∈ memberFields body := by
  intro assignment method body
  have target : (Expr.attribute (.name "self") "x").Named :=
    Expr.named_attribute (Expr.named_name (by decide)) (by decide)
  have assigned : BlockNamed [⟨3, assignment⟩] :=
    blockNamed_cons.2 ⟨⟨by simpa [assignment, Stmt.Named] using target,
      by simp [assignment, Stmt.blocks]⟩, blockNamed_nil⟩
  have params : method.Named := by
    simp only [method, Stmt.Named]
    decide
  have named : BlockNamed body :=
    blockNamed_cons.2 ⟨⟨params, by simpa [method, Stmt.blocks] using assigned⟩, blockNamed_nil⟩
  obtain ⟨r, run⟩ : ∃ r, (Stmt.classDef "A" [] body).emit ⟨{ declareMembers := true }, .script⟩
      (.start .lexical) = .ok r := ⟨_, rfl⟩
  obtain ⟨header, o, s', hheader, -, hlines, hwritten, hiff⟩ :=
    method_fields_declared_iff rfl Naming.named_builtin named run
  cases hheader
  refine ⟨r, o, run, hlines, hwritten, hiff.2 fun stmt hm hfunction => ?_⟩
  rw [List.mem_singleton.1 hm] at hfunction
  cases hfunction

/-- A function in a branch of a class body is a method, and the field that it assigns to is not
declared. -/
theorem field_of_method_in_branch :
    let assignment : Stmt := .assign [.attribute (.name "self") "x"] (.constant (.int "1"))
    let method : Stmt := .functionDef "f" [{ name := "self" }] [] [⟨4, assignment⟩]
    let body : Block := [⟨2, .branch (.name "a") [⟨3, method⟩] []⟩]
    emitScript { declareMembers := true } [⟨1, .classDef "A" [] body⟩] =
      .ok ("class A\n    if a\n        def f()\n            self.x = 1\n        end\n" ++
        "    end\nend\n") ∧
    fieldsWrittenIn false body = ["x"] ∧ assignedField? "self.x = 1" = some "x" ∧
    memberFields body = [] :=
  ⟨rfl, rfl, rfl, rfl⟩

end Berrify
