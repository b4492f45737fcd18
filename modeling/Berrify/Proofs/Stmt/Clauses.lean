import Berrify.Concrete.Lower
import Berrify.Proofs.Stmt.Emission

/-!
# Chains of clauses

A list of `elif` clauses is folded into a nest of branches when it is read (`nest`), and the emitter
unfolds the nest again. A nest does not show whether a branch that stands alone behind the last
clause was written as one : it goes on as a chain in both cases. So a chain has the clauses that
were written and those with which the block behind them goes on (`chainClauses`), and ends in a
block that is no single branch (`chainElse`).

`emitOtherwise_nest` goes through a nest by induction on its clauses. Each of them has its line, its
body one block deeper, and the scope that everything before it has left (`WritesClauses`). From this
comes `chain_keeps_clauses` : a chain of any length is one block with all its clauses in order.
-/

namespace Berrify

/-- A test, what runs if it holds, and the source line on which they start. -/
structure Clause where
  line : Nat
  test : Expr
  body : Block

/-! ## Nests -/

/-- Clauses as a nest of branches, each the only statement that its predecessor runs otherwise. -/
def nest : List Clause → Block → Block
  | [], orelse => orelse
  | clause :: rest, orelse => [⟨clause.line, .branch clause.test clause.body (nest rest orelse)⟩]

/-- The clauses with which a block goes on as a chain : those of a single branch. -/
def chainClauses : Block → List Clause
  | [⟨line, .branch test body orelse⟩] => ⟨line, test, body⟩ :: chainClauses orelse
  | _ => []

/-- What is behind the last clause with which a block goes on as a chain. -/
def chainElse : Block → Block
  | [⟨_, .branch _ _ orelse⟩] => chainElse orelse
  | block => block

theorem nest_append (clauses others : List Clause) (orelse : Block) :
    nest (clauses ++ others) orelse = nest clauses (nest others orelse) := by
  induction clauses with
  | nil => rfl
  | cons clause clauses ih => rw [List.cons_append, nest, ih, nest]

/-- Only a single branch goes on as a chain. -/
theorem chain_of_not_isElif {block : Block} (h : isElif block = false) :
    chainClauses block = [] ∧ chainElse block = block := by
  unfold chainClauses chainElse
  split
  · cases h
  · exact ⟨rfl, rfl⟩

/-- A block is the nest of the clauses with which it goes on, and what is behind them is no single
branch. -/
theorem nest_chain (block : Block) :
    nest (chainClauses block) (chainElse block) = block ∧ isElif (chainElse block) = false := by
  fun_induction chainClauses block with
  | case1 line test body orelse ih =>
    rw [chainElse, nest, ih.1]
    exact ⟨rfl, ih.2⟩
  | case2 block hb =>
    have plain : isElif block = false := by
      rw [Bool.eq_false_iff]
      intro he
      obtain ⟨line, test, body, orelse, rfl⟩ := exists_of_isElif he
      exact hb line test body orelse rfl
    rw [(chain_of_not_isElif plain).2]
    exact ⟨rfl, plain⟩

/-- A clause as it was written : its test and its body are read by themselves. -/
def Clause.ofElif (clause : Concrete.ElifClause Concrete.Block) : Clause :=
  ⟨clause.line, clause.test.lower, Concrete.lowerBlock clause.body⟩

/-- The fold over the clauses that were written takes each of them once, in order. -/
theorem elifChain_eq_nest (elifs : List (Concrete.ElifClause Concrete.Block)) (orelse : Block) :
    Concrete.elifChain (Concrete.lowerElifs elifs) orelse = nest (elifs.map .ofElif) orelse := by
  induction elifs with
  | nil => rfl
  | cons clause elifs ih =>
    obtain ⟨line, test, body⟩ := clause
    rw [Concrete.lowerElifs, Concrete.elifChain, ih, List.map_cons, nest, Clause.ofElif]

/-! ## Lines of a chain -/

/-- What is written for a clause : the text of its test and the lines of its body. -/
structure Segment where
  test : String
  body : List Line

/-- A clause under a keyword, with its body one block deeper. -/
def Segment.lines (keyword : String) (segment : Segment) : List Line :=
  .flush (keyword ++ segment.test) :: nested segment.body

/-- The lines of a block that runs if no test holds, if there is such a block. -/
def elseLines (orelse : Block) (inner : List Line) : List Line :=
  if orelse.isEmpty then [] else .flush "else" :: nested inner

/-- The lines of a chain : its clauses in order, the block behind them, and one end. -/
def chainLines (head : Segment) (others : List Segment) (orelse : Block) (inner : List Line) :
    List Line :=
  head.lines "if " ++ others.flatMap (·.lines "elif ") ++ elseLines orelse inner ++ [.flush "end"]

/-- The lines of a chain without those of the blocks in it. -/
def chainHeaders (head : Segment) (others : List Segment) (orelse : Block) : List Line :=
  .flush ("if " ++ head.test) :: others.map (fun other => .flush ("elif " ++ other.test)) ++
    (if orelse.isEmpty then [] else [.flush "else"]) ++ [.flush "end"]

theorem filter_nested (lines : List Line) : (nested lines).filter (·.level == 0) = [] := by
  rw [List.filter_eq_nil_iff]
  intro line hm
  obtain ⟨inner, -, rfl⟩ := List.mem_map.1 hm
  simp [Line.nest]

/-- At the indentation of the chain itself stand its headers and nothing else. -/
theorem filter_chainLines (head : Segment) (others : List Segment) (orelse : Block)
    (inner : List Line) :
    (chainLines head others orelse inner).filter (·.level == 0) =
      chainHeaders head others orelse := by
  have segment (keyword : String) (one : Segment) :
      (one.lines keyword).filter (·.level == 0) = [.flush (keyword ++ one.test)] := by
    rw [Segment.lines, List.filter_cons_of_pos rfl, filter_nested]
  have segments : (others.flatMap (·.lines "elif ")).filter (·.level == 0) =
      others.map fun other => .flush ("elif " ++ other.test) := by
    induction others with
    | nil => rfl
    | cons other others ih =>
      rw [List.flatMap_cons, List.filter_append, segment, ih, List.map_cons, List.singleton_append]
  have last : (elseLines orelse inner).filter (·.level == 0) =
      if orelse.isEmpty then [] else [.flush "else"] := by
    unfold elseLines
    split
    · rfl
    · rw [List.filter_cons_of_pos rfl, filter_nested]
  rw [chainLines, List.filter_append, List.filter_append, List.filter_append, segment, segments,
    last]
  rfl

/-! ## Runs -/

/-- Clauses are written one after the other, the test and the body of each in the scope that
everything before them has left. -/
inductive WritesClauses (site : Site) : List Clause → Scope → List Segment → Scope → Prop where
  | nil {s : Scope} : WritesClauses site [] s [] s
  | cons {clause : Clause} {rest : List Clause} {s s' : Scope} {test : String} {body : Emitted}
      {segments : List Segment} :
      clause.test.renderCondition (site.view s) = .ok test →
      emitBlock site clause.body s = .ok body →
      WritesClauses site rest body.scope segments s' →
      WritesClauses site (clause :: rest) s (⟨test, body.lines⟩ :: segments) s'

theorem emitOtherwise_of_isElif_eq_false {site : Site} {s : Scope} {orelse : Block} {r : Emitted}
    (h : isElif orelse = false) :
    emitOtherwise site orelse s = .ok r ↔
      ∃ inner, emitBlock site orelse s = .ok inner ∧
        r = ⟨inner.scope, elseLines orelse inner.lines⟩ := by
  by_cases hne : orelse = []
  · subst hne
    simp only [emitOtherwise, emitBlock, pure_eq_ok, elseLines]
    constructor
    · rintro rfl
      exact ⟨_, rfl, rfl⟩
    · rintro ⟨_, rfl, rfl⟩
      rfl
  · have lines (inner : List Line) : elseLines orelse inner = .flush "else" :: nested inner := by
      rw [elseLines, if_neg (by simpa using hne)]
    simp only [emitOtherwise_of_not_isElif h hne, bind_eq_ok, pure_eq_ok, lines,
      eq_comm (a := r)]

/-- The clauses of a nest are written one after the other, and then the block behind them. -/
theorem emitOtherwise_nest {site : Site} {clauses : List Clause} {orelse : Block} {s : Scope}
    {r : Emitted} (h : isElif orelse = false) :
    emitOtherwise site (nest clauses orelse) s = .ok r ↔
      ∃ segments s' inner, WritesClauses site clauses s segments s' ∧
        emitBlock site orelse s' = .ok inner ∧
        r = ⟨inner.scope, segments.flatMap (·.lines "elif ") ++ elseLines orelse inner.lines⟩ := by
  induction clauses generalizing s r with
  | nil =>
    rw [nest, emitOtherwise_of_isElif_eq_false h]
    constructor
    · rintro ⟨inner, hi, rfl⟩
      exact ⟨[], s, inner, .nil, hi, rfl⟩
    · rintro ⟨_, _, inner, ⟨⟩, hi, rfl⟩
      exact ⟨inner, hi, rfl⟩
  | cons clause clauses ih =>
    simp only [nest, emitOtherwise, bind_eq_ok, pure_eq_ok, locate_eq_ok, orRefuse_eq_ok, ih]
    constructor
    · rintro ⟨test, ht, body, hb, _, ⟨segments, s', inner, hw, hi, rfl⟩, rfl⟩
      refine ⟨_, s', inner, .cons ht hb hw, hi, ?_⟩
      simp [Segment.lines]
    · rintro ⟨_, s', inner, ⟨⟩, hi, rfl⟩
      rename_i test body segments ht hb hw
      refine ⟨test, ht, body, hb, _, ⟨segments, s', inner, hw, hi, rfl⟩, ?_⟩
      simp [Segment.lines]

/-- A chain is written as a block with a line for each clause, an `else` if a block is behind the
last of them, and one end. -/
theorem emit_branch_nest {site : Site} {first : Clause} {clauses : List Clause} {orelse : Block}
    {s : Scope} {r : Emitted} (h : isElif orelse = false) :
    (Stmt.branch first.test first.body (nest clauses orelse)).emit site s = .ok r ↔
      ∃ head others s' inner, WritesClauses site (first :: clauses) s (head :: others) s' ∧
        emitBlock site orelse s' = .ok inner ∧
        r = ⟨inner.scope, chainLines head others orelse inner.lines⟩ := by
  simp only [Stmt.emit, bind_eq_ok, pure_eq_ok, orRefuse_eq_ok, emitOtherwise_nest h]
  constructor
  · rintro ⟨test, ht, body, hb, _, ⟨others, s', inner, hw, hi, rfl⟩, rfl⟩
    refine ⟨_, others, s', inner, .cons ht hb hw, hi, ?_⟩
    simp [chainLines, Segment.lines]
  · rintro ⟨_, others, s', inner, ⟨⟩, hi, rfl⟩
    rename_i test body ht hb hw
    refine ⟨test, ht, body, hb, _, ⟨others, s', inner, hw, hi, rfl⟩, ?_⟩
    simp [chainLines, Segment.lines]

/-! ## Chains -/

/-- A branch with `elif` clauses is read as the nest of these clauses, each of them read by itself
and taken once, in order. A nest is emitted as one chain : a line for each clause in order, the body
of each one block deeper right behind its line, an `else` if there is a block behind the last
clause, and one end, each part in the scope that everything before it has left. The clauses of the
chain are those of the nest, and behind them those with which the last block goes on : it does so
only if it is a single branch, and then what comes last is no single branch. -/
theorem chain_keeps_clauses :
    (∀ (test : Concrete.Expr) (body : Concrete.Block)
      (elifs : List (Concrete.ElifClause Concrete.Block)) (orelse : Concrete.Block),
      (Concrete.Stmt.branch test body elifs orelse).lower =
        .branch test.lower (Concrete.lowerBlock body)
          (nest (elifs.map .ofElif) (Concrete.lowerBlock orelse))) ∧
    (∀ orelse : Block,
      (isElif orelse = false → chainClauses orelse = [] ∧ chainElse orelse = orelse) ∧
      nest (chainClauses orelse) (chainElse orelse) = orelse ∧
      isElif (chainElse orelse) = false) ∧
    ∀ (site : Site) (first : Clause) (clauses : List Clause) (orelse : Block) (s : Scope)
      (r : Emitted),
      (Stmt.branch first.test first.body (nest clauses orelse)).emit site s = .ok r ↔
        ∃ head others s' inner,
          WritesClauses site (first :: (clauses ++ chainClauses orelse)) s (head :: others) s' ∧
          emitBlock site (chainElse orelse) s' = .ok inner ∧
          r = ⟨inner.scope, chainLines head others (chainElse orelse) inner.lines⟩ ∧
          r.lines.filter (·.level == 0) = chainHeaders head others (chainElse orelse) := by
  refine ⟨fun test body elifs orelse => ?_, fun orelse => ⟨chain_of_not_isElif, nest_chain orelse⟩,
    fun site first clauses orelse s r => ?_⟩
  · rw [Concrete.Stmt.lower, elifChain_eq_nest]
  · obtain ⟨whole, last⟩ := nest_chain orelse
    have flat : nest clauses orelse =
        nest (clauses ++ chainClauses orelse) (chainElse orelse) := by
      rw [nest_append, whole]
    rw [flat, emit_branch_nest last]
    constructor
    · rintro ⟨head, others, s', inner, hw, hi, rfl⟩
      exact ⟨head, others, s', inner, hw, hi, rfl, filter_chainLines _ _ _ _⟩
    · rintro ⟨head, others, s', inner, hw, hi, hr, -⟩
      exact ⟨head, others, s', inner, hw, hi, hr⟩

end Berrify
