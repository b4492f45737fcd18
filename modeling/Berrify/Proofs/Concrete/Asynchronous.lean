import Berrify.Proofs.Concrete.Shape
import Berrify.Proofs.Stmt.Flaws

/-!
# Asynchronous definitions

A definition behind the word `async` is refused as it is lowered if it has no decorators. With
decorators it becomes the very definition that it would be without the word
(`Concrete.Stmt.lower_decorated`).

A refused statement has no text, however deep it stands, so no script with one is emitted
(`emitScript_ne_ok`). `Concrete.Stmt.bodies` lists the blocks of a statement as they are written,
also those of a statement that is refused as a whole : of what stands in them nothing is left, but
then the statement around them is refused (`Concrete.nested_blocks_or_refused`).
-/

namespace Berrify

/-! ## Refused statements -/

theorem mem_blockFindings {stmt : Located Stmt} {block : Block} (hm : stmt ∈ block)
    {inClass : Bool} {finding : Finding} (hf : finding ∈ stmt.node.findings inClass) :
    finding ∈ blockFindings inClass block := by
  induction block with
  | nil => cases hm
  | cons first rest ih =>
    rw [blockFindings, List.mem_append]
    rcases List.mem_cons.1 hm with rfl | hm
    · exact .inl hf
    · exact .inr (ih hm)

theorem mem_handlerFindings {handler : Handler Block} {handlers : List (Handler Block)}
    (hm : handler ∈ handlers) {inClass : Bool} {finding : Finding}
    (hf : finding ∈ blockFindings inClass handler.body) :
    finding ∈ handlerFindings inClass handlers := by
  induction handlers with
  | nil => cases hm
  | cons first rest ih =>
    rw [handlerFindings, List.mem_append]
    rcases List.mem_cons.1 hm with rfl | hm
    · exact .inl hf
    · exact .inr (ih hm)

/-- What is a flaw of a block, in a class body or not, is one of the statement around it. -/
theorem Stmt.mem_findings {stmt : Stmt} {inner : Block} (hm : inner ∈ stmt.blocks)
    {finding : Finding} (hf : ∀ inClass, finding ∈ blockFindings inClass inner) (inClass : Bool) :
    finding ∈ stmt.findings inClass := by
  cases stmt with
  | classDef name bases body =>
    obtain rfl := List.mem_singleton.1 hm
    exact List.mem_append_right _ (hf true)
  | functionDef name params decorators body =>
    obtain rfl := List.mem_singleton.1 hm
    exact List.mem_append_right _ (hf false)
  | branch test body orelse | whileLoop test body orelse =>
    rw [findings, List.mem_append, List.mem_append]
    rcases List.mem_pair.1 hm with rfl | rfl
    · exact .inl (.inr (hf inClass))
    · exact .inr (hf inClass)
  | forEach target iter body orelse =>
    simp only [findings, List.mem_append]
    rcases List.mem_pair.1 hm with rfl | rfl
    · exact .inl (.inl (.inr (hf inClass)))
    · exact .inr (hf inClass)
  | attempt body handlers orelse cleanup =>
    simp only [findings, List.mem_append]
    simp only [blocks, List.cons_append, List.mem_cons, List.mem_append, List.mem_map,
      List.not_mem_nil, or_false] at hm
    rcases hm with rfl | ⟨handler, hh, rfl⟩ | rfl | rfl
    · exact .inl (.inl (.inl (.inl (hf inClass))))
    · exact .inl (.inl (.inl (.inr (mem_handlerFindings hh (hf inClass)))))
    · exact .inl (.inr (hf inClass))
    · exact .inr (hf inClass)
  | _ => cases hm

/-- A refused statement is a flaw of each block in which it stands. -/
theorem mem_blockFindings_of_nested {line : Nat} {kind : String} {block : Block}
    (h : Nested Stmt.blocks ⟨line, .unsupported kind⟩ block) (inClass : Bool) :
    ⟨.unknownStatement kind, true⟩ ∈ blockFindings inClass block := by
  induction h generalizing inClass with
  | here hm => exact mem_blockFindings hm (by simp [Stmt.findings])
  | inside hm hi _ ih => exact mem_blockFindings hm (Stmt.mem_findings hi ih inClass)

/-- A script with a refused statement is not emitted. -/
theorem emitScript_ne_ok {line : Nat} {kind : String} {script : Block}
    (h : Nested Stmt.blocks ⟨line, .unsupported kind⟩ script) (style : Style) (text : String) :
    emitScript style script ≠ .ok text := by
  intro run
  obtain ⟨s, o, ho, -⟩ := emitScript_eq_ok run
  have overlooked : Overlooked (blockFindings false script) := ho.overlooked
  exact absurd (overlooked _ (mem_blockFindings_of_nested h false)) (by simp)

/-! ## Definitions as they are written -/

namespace Concrete

/-- The blocks of a statement as they are written. -/
def Stmt.bodies : Stmt → List Block
  | .branch _ body elifs orelse => body :: elifs.map (·.body) ++ [orelse]
  | .forEach _ _ _ body orelse => [body, orelse]
  | .whileLoop _ body orelse => [body, orelse]
  | .attempt body clauses orelse cleanup => body :: clauses.map (·.body) ++ [orelse, cleanup]
  | .functionDef _ _ _ _ body => [body]
  | .classDef _ _ _ body => [body]
  | _ => []

/-- A block of a statement that is not kept belongs to one that is refused. -/
theorem Stmt.mem_blocks_or_refused {stmt : Stmt} {inner : Block} (hm : inner ∈ stmt.bodies) :
    inner ∈ stmt.blocks ∨ ∃ kind, stmt.lower = .unsupported kind := by
  cases stmt with
  | forEach isAsync target iter body orelse =>
    cases isAsync with
    | true => exact .inr ⟨_, rfl⟩
    | false => exact .inl hm
  | functionDef decorators isAsync name params body =>
    rw [blocks, lower]
    split
    · exact .inr ⟨_, rfl⟩
    · exact .inl hm
  | classDef decorators name bases body =>
    rw [blocks, lower]
    split
    · exact .inl hm
    · exact .inr ⟨_, rfl⟩
  | _ => exact .inl hm

/-- A statement is kept, at any depth, or stands in one that is refused. -/
theorem nested_blocks_or_refused {stmt : Located Stmt} {block : Block}
    (h : Nested Stmt.bodies stmt block) :
    Nested Stmt.blocks stmt block ∨ ∃ line kind,
      Nested Berrify.Stmt.blocks ⟨line, .unsupported kind⟩ (lowerBlock block) := by
  induction h with
  | here hm => exact .inl (.here hm)
  | @inside outer block inner hm hi _ ih =>
    rcases outer.node.mem_blocks_or_refused hi with kept | ⟨kind, refused⟩
    · rcases ih with ih | ⟨line, kind, ih⟩
      · exact .inl (.inside hm kept ih)
      · obtain ⟨lowered, hl, hn⟩ := Stmt.exists_block kept ih
        exact .inr ⟨line, kind, .inside (mem_lowerBlock hm) hl hn⟩
    · exact .inr ⟨outer.line, kind, .here (refused ▸ mem_lowerBlock hm)⟩

/-- A definition with decorators is kept, and the word `async` in front of it makes no
difference. -/
theorem Stmt.lower_decorated {decorators : List Expr} (h : decorators ≠ []) (isAsync : Bool)
    (name : String) (params : List (Parameter Expr)) (body : Block) :
    (Stmt.functionDef decorators isAsync name params body).lower =
      .functionDef name (params.filterMap Parameter.lower?) (lowerList decorators)
        (lowerBlock body) := by
  cases decorators with
  | nil => exact absurd rfl h
  | cons first rest => rw [lower, List.isEmpty_cons, Bool.and_false, if_neg Bool.false_ne_true]

/-- Whether a statement is an asynchronous definition, with decorators or without. -/
def Stmt.isAsync (decorated : Bool) : Stmt → Bool
  | .functionDef decorators isAsync _ _ _ => isAsync && (!decorators.isEmpty) == decorated
  | _ => false

/-- Whether an asynchronous definition stands directly in a block of a statement. -/
def hasAsyncMethod (decorated : Bool) (tree : Block) : Bool :=
  tree.any fun outer => outer.node.bodies.any (·.any (·.node.isAsync decorated))

theorem exists_async_method {decorated : Bool} {tree : Block}
    (h : hasAsyncMethod decorated tree = true) :
    ∃ line decorators name params body,
      Nested Stmt.bodies ⟨line, .functionDef decorators true name params body⟩ tree ∧
        (!decorators.isEmpty) = decorated := by
  obtain ⟨outer, houter, h⟩ := List.any_eq_true.1 h
  obtain ⟨inner, hinner, h⟩ := List.any_eq_true.1 h
  obtain ⟨⟨line, stmt⟩, hstmt, h⟩ := List.any_eq_true.1 h
  cases stmt with
  | functionDef decorators isAsync name params body =>
    simp only [Stmt.isAsync, Bool.and_eq_true, beq_iff_eq] at h
    obtain ⟨rfl, hdecorated⟩ := h
    exact ⟨line, decorators, name, params, body, .inside houter hinner (.here hstmt), hdecorated⟩
  | _ => cases h

end Concrete

/-! ## Scripts -/

/-- What becomes of the asynchronous definitions of a script, at any depth. Without decorators they
are refused, and the script is not emitted. With decorators they stand in the script as the
definitions that they would be without `async`, unless they are in a statement that is refused. -/
theorem async_definitions_kept_iff_decorated {source : String} {script : Block}
    (h : Script.read? source = some script) :
    ∃ tree, Concrete.ofTokens? (Token.lex source) = some tree ∧
      ∀ line decorators name params body,
        Nested Concrete.Stmt.bodies ⟨line, .functionDef decorators true name params body⟩ tree →
        (decorators = [] →
          (Concrete.Stmt.functionDef decorators true name params body).lower =
              .unsupported "async function_definition" ∧
            ∀ style text, emitScript style script ≠ .ok text) ∧
        (decorators ≠ [] →
          Nested Stmt.blocks ⟨line, .functionDef name (params.filterMap Concrete.Parameter.lower?)
              (Concrete.lowerList decorators) (Concrete.lowerBlock body)⟩ script ∨
            ∀ style text, emitScript style script ≠ .ok text) := by
  obtain ⟨tree, ht, rfl⟩ := Option.map_eq_some_iff.1 h
  refine ⟨tree, ht, fun line decorators name params body hn => ?_⟩
  constructor
  · rintro rfl
    refine ⟨rfl, ?_⟩
    rcases Concrete.nested_blocks_or_refused hn with kept | ⟨line, kind, refused⟩
    · exact emitScript_ne_ok (Concrete.nested_lower kept)
    · exact emitScript_ne_ok refused
  · intro decorated
    rcases Concrete.nested_blocks_or_refused hn with kept | ⟨line, kind, refused⟩
    · rw [← Concrete.Stmt.lower_decorated decorated true]
      exact .inl (Concrete.nested_lower kept)
    · exact .inr (emitScript_ne_ok refused)

/-- A method without decorators. -/
theorem async_definitions_kept_iff_decorated_of_method :
    let source := "class A:\n    async def f(self):\n        pass\n"
    ∃ script, Script.read? source = some script ∧
      ∀ style text, emitScript style script ≠ .ok text := by
  intro source
  obtain ⟨tree, written⟩ : ∃ tree, Concrete.ofTokens? (Token.lex source) = some tree :=
    Option.isSome_iff_exists.1 (by decide +kernel)
  have method : (Concrete.ofTokens? (Token.lex source)).any
      (Concrete.hasAsyncMethod false) = true := by
    decide +kernel
  rw [written] at method
  obtain ⟨line, decorators, name, params, body, nested, bare⟩ := Concrete.exists_async_method method
  have read : Script.read? source = some (Concrete.lowerBlock tree) :=
    congrArg (Option.map Concrete.lowerBlock) written
  obtain ⟨tree', written', spec⟩ := async_definitions_kept_iff_decorated read
  obtain rfl := Option.some.inj (written.symm.trans written')
  have refused := (spec line decorators name params body nested).1 (by simpa using bare)
  exact ⟨_, read, refused.2⟩

/-- A static method with a decorator in front of `async`, which is emitted as any other. -/
theorem decorated_async_definition_emitted :
    let source := "class A:\n    @staticmethod\n    async def f():\n        pass\n"
    ∃ tree script, Concrete.ofTokens? (Token.lex source) = some tree ∧
      Script.read? source = some script ∧
      (∃ line decorators name params body,
        Nested Concrete.Stmt.bodies ⟨line, .functionDef decorators true name params body⟩ tree) ∧
      emitScript {} script = .ok "class A\n    static def f()\n    end\nend\n" := by
  intro source
  obtain ⟨tree, written⟩ : ∃ tree, Concrete.ofTokens? (Token.lex source) = some tree :=
    Option.isSome_iff_exists.1 (by decide +kernel)
  have method : (Concrete.ofTokens? (Token.lex source)).any
      (Concrete.hasAsyncMethod true) = true := by
    decide +kernel
  have text : ((Concrete.ofTokens? (Token.lex source)).map Concrete.lowerBlock).bind
      (fun script => (emitScript {} script).toOption) =
        some "class A\n    static def f()\n    end\nend\n" := by
    decide +kernel
  rw [written] at method text
  obtain ⟨line, decorators, name, params, body, nested, -⟩ := Concrete.exists_async_method method
  refine ⟨tree, _, written, congrArg (Option.map Concrete.lowerBlock) written,
    ⟨line, decorators, name, params, body, nested⟩, ?_⟩
  change (emitScript {} (Concrete.lowerBlock tree)).toOption = some _ at text
  cases run : emitScript {} (Concrete.lowerBlock tree) with
  | ok emitted =>
    rw [run] at text
    exact congrArg Except.ok (Option.some.inj text)
  | error refusal =>
    rw [run] at text
    cases text

end Berrify
