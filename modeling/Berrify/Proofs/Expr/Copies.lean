import Berrify.Proofs.Expr.Flaws
import Berrify.Proofs.Text.Tagged

/-!
# How often a call is written

`Expr.factors` says how often each part of an expression is written : once, except that a chain of
comparisons writes an operand in every comparison it takes part in, and a test in a literal
collection writes the tested value once for each item. The calls at an address in an expression are
written as often as the factors along the address say together (`Expr.copies`), and at least once
where no part on the way is left out (`copies_pos`).

`Expr.tag` writes an expression and tags what it writes for each call. It has the text that
`Expr.write` gives, each tag is on the text of its call (`tagsRight`), and each call is there as
often as its copies say (`count_tag`). All of this follows from `Expr.compose`, which puts an
expression together from its parts : the count of an address in the whole is the sum of those in the
parts, weighed with the factors (`count_compose`).
-/

namespace Berrify.Expr

/-! ## Factors -/

/-- Whether an expression is a call. -/
def isCall : Expr → Bool
  | .call .. => true
  | _ => false

/-- How often a comparison writes its left operand. -/
def leftFactor (op : Comparison) (right : Expr) : Nat :=
  match op.target?, right.literalItems? with
  | none, some items => items.length
  | _, _ => 1

/-- How often the first comparison of a chain writes the operand on its left. -/
def firstFactor : List Comparison → List Expr → Nat
  | op :: _, right :: _ => leftFactor op right
  | _, _ => 0

/-- How often a chain of comparisons writes the operands behind the first one : as the right operand
of one comparison, and as the left operand of the next if there is one. -/
def laterFactors : List Comparison → List Expr → List Nat
  | _ :: ops, _ :: rest => (1 + firstFactor ops rest) :: laterFactors ops rest
  | _, [] => []
  | [], comparators => List.replicate comparators.length 0

/-- How often each part of an expression is written. Named arguments and steps of slices are
refused, and of an upper bound that is a number the text is computed. -/
def factors : Expr → List Nat
  | .call _ args keywords =>
    1 :: List.replicate args.length 1 ++ List.replicate keywords.length 0
  | .compare _ ops comparators => firstFactor ops comparators :: laterFactors ops comparators
  | .slice lower upper step =>
    List.replicate lower.toList.length 1 ++
      (upper.toList.map fun bound => if bound.integerValue?.isSome then 0 else 1) ++
      List.replicate step.toList.length 0
  | e => List.replicate e.parts.length 1

/-- The expression at an address. -/
def at? (e : Expr) : Address → Option Expr
  | [] => some e
  | i :: a => e.parts[i]?.bind (·.at? a)

/-- How often the call at an address is written. -/
def copies (e : Expr) : Address → Nat
  | [] => if e.isCall then 1 else 0
  | i :: a => e.factors.getD i 0 * (e.parts[i]?.elim 0 (·.copies a))

/-- Whether writing an expression leaves out a part, even if it holds a call. -/
def leavesOut : Expr → Nat → Bool
  | .call _ args _, i => decide (args.length < i)
  | .compare _ ops comparators, 0 => !readsLeft ops comparators
  | .compare _ ops _, i + 1 => decide (ops.length ≤ i)
  | .slice lower upper _, i => decide (lower.toList.length + upper.toList.length ≤ i)
  | _, _ => false

/-- Whether an address goes through a part that is left out. -/
def isLeftOut (e : Expr) : Address → Bool
  | [] => false
  | i :: a => e.leavesOut i || e.parts[i]?.any (·.isLeftOut a)

/-- What is no call and has no parts holds no calls. -/
theorem copies_eq_zero {e : Expr} (hc : e.isCall = false) (hp : e.parts = []) (a : Address) :
    e.copies a = 0 := by
  cases a <;> simp [copies, hc, hp]

theorem integerValue?_cases {e : Expr} (h : e.integerValue?.isSome = true) :
    (∃ value, e = .constant value) ∨
      ∃ operand, e = .unary .neg operand ∧ operand.integerValue?.isSome = true := by
  match e, h with
  | .constant value, _ => exact .inl ⟨value, rfl⟩
  | .unary .neg operand, h => exact .inr ⟨operand, rfl, by simpa [integerValue?] using h⟩

/-- The number of an upper bound whose text is computed holds no calls. -/
theorem copies_eq_zero_of_integerValue? {e : Expr} (h : e.integerValue?.isSome = true)
    (a : Address) : e.copies a = 0 := by
  induction a generalizing e with
  | nil =>
    rcases integerValue?_cases h with ⟨value, rfl⟩ | ⟨operand, rfl, -⟩
    · rfl
    · rfl
  | cons i a ih =>
    rcases integerValue?_cases h with ⟨value, rfl⟩ | ⟨operand, rfl, inner⟩
    · exact copies_eq_zero rfl rfl _
    · cases i with
      | zero => simp [copies, parts, ih inner]
      | succ i => simp [copies, parts]

theorem firstFactor_pos {ops : List Comparison} {comparators : List Expr}
    (h : readsLeft ops comparators = true) : 0 < firstFactor ops comparators := by
  match ops, comparators with
  | op :: _, right :: _ =>
    rw [firstFactor, leftFactor]
    split
    · rename_i items ht hi
      cases items with
      | nil => simp [readsLeft, ht, hi] at h
      | cons item rest => exact Nat.succ_pos _
    · exact Nat.one_pos

theorem laterFactors_pos {ops : List Comparison} {comparators : List Expr} {j : Nat}
    (hops : j < ops.length) (hj : j < comparators.length) :
    0 < (laterFactors ops comparators).getD j 0 := by
  induction comparators generalizing ops j with
  | nil => cases hj
  | cons right rest ih =>
    cases ops with
    | nil => cases hops
    | cons op ops =>
      cases j with
      | zero =>
        rw [laterFactors, List.getD_cons_zero]
        omega
      | succ j => exact ih (Nat.lt_of_succ_lt_succ hops) (Nat.lt_of_succ_lt_succ hj)

theorem getD_replicate_pos {i n : Nat} (h : i < n) : 0 < (List.replicate n 1).getD i 0 := by
  simp [List.getD, h]

/-- A bound of a slice is written, unless its text is computed. -/
theorem bound_factor_pos {lower upper step : Option Expr} {part : Expr} {i : Nat}
    (hi : (Expr.slice lower upper step).parts[i]? = some part)
    (hout : (Expr.slice lower upper step).leavesOut i = false)
    (hv : part.integerValue?.isSome = false) :
    0 < (Expr.slice lower upper step).factors.getD i 0 := by
  have bound : i < lower.toList.length + upper.toList.length := by
    simpa [leavesOut] using hout
  cases lower with
  | none =>
    cases upper with
    | none => simp at bound
    | some upper =>
      obtain rfl : i = 0 := by simpa using bound
      obtain rfl : upper = part := by simpa [parts] using hi
      simp [factors, hv]
  | some lower =>
    cases i with
    | zero => exact Nat.one_pos
    | succ i =>
      cases upper with
      | none => simp at bound
      | some upper =>
        obtain rfl : i = 0 := Nat.lt_one_iff.1 (Nat.lt_of_succ_lt_succ bound)
        obtain rfl : upper = part := by simpa [parts] using hi
        simp [factors, hv]

/-- What is not left out is written. -/
theorem factor_pos {e part : Expr} {i : Nat} (hi : e.parts[i]? = some part)
    (hout : e.leavesOut i = false) (hv : part.integerValue?.isSome = false) :
    0 < e.factors.getD i 0 := by
  have inside : i < e.parts.length := (List.getElem?_eq_some_iff.1 hi).1
  match e with
  | .call func args keywords =>
    cases i with
    | zero => exact Nat.one_pos
    | succ i =>
      have positional : i + 1 ≤ args.length := by simpa [leavesOut] using hout
      have first : (List.replicate args.length 1 ++ List.replicate keywords.length 0)[i]? =
          (List.replicate args.length 1)[i]? :=
        List.getElem?_append_left (by rwa [List.length_replicate])
      simp [factors, List.getD, first, Nat.lt_of_succ_le positional]
  | .compare left ops comparators =>
    cases i with
    | zero => exact firstFactor_pos (by simpa [leavesOut] using hout)
    | succ j =>
      exact laterFactors_pos (by simpa [leavesOut] using hout) (by simpa [parts] using inside)
  | .slice lower upper step => exact bound_factor_pos hi hout hv
  | .name _ | .attribute .. | .constant _ | .binary .. | .unary .. | .boolean ..
  | .conditional .. | .dict _ | .list _ | .tuple _ | .set _ | .subscript .. | .lambda ..
  | .template _ | .starred _ | .unsupported _ => exact getD_replicate_pos inside

/-- A call is written at least once, unless it is left out. -/
theorem copies_pos {e call : Expr} {a : Address} (ha : e.at? a = some call)
    (hc : call.isCall = true) (hout : e.isLeftOut a = false) : 0 < e.copies a := by
  induction a generalizing e with
  | nil =>
    obtain rfl := Option.some.inj ha
    simp [copies, hc]
  | cons i a ih =>
    rw [at?, Option.bind_eq_some_iff] at ha
    obtain ⟨part, hi, ha⟩ := ha
    simp only [isLeftOut, hi, Option.any_some, Bool.or_eq_false_iff] at hout
    have inner := ih ha hout.2
    have value : part.integerValue?.isSome = false := by
      rw [Bool.eq_false_iff]
      intro hv
      rw [copies_eq_zero_of_integerValue? hv] at inner
      exact Nat.lt_irrefl 0 inner
    rw [copies, hi, Option.elim_some]
    exact Nat.mul_pos (factor_pos hi hout.1 value) inner

/-! ## Putting an expression together -/

/-- An operand, given its tagged text where it stands alone. -/
def enclosed (e : Expr) (m : Tagged) : Tagged :=
  if e.isCompound then m.parenthesize else m

/-- An argument, given its tagged text where it stands alone. -/
def argument (view : View) (e : Expr) (m : Tagged) : Tagged :=
  if view.isFunction e then .plain "/-> " ++ m ++ .plain "()" else m

/-- The tagged texts of expressions, each put in its place, given those where they stand alone. -/
def listed (put : Expr → Tagged → Tagged) (m : Nat → Tagged) : Nat → List Expr → List Tagged
  | _, [] => []
  | n, e :: es => put e (m n) :: listed put m (n + 1) es

/-- The entries of a map literal. -/
def entriesTagged (m : Nat → Tagged) : Nat → List (Expr × Expr) → List Tagged
  | _, [] => []
  | n, _ :: rest => (m n ++ .plain ": " ++ m (n + 1)) :: entriesTagged m (n + 2) rest

/-- What is called. The receiver of a method is a part of a part. -/
def calleeTagged (view : View) (m : Nat → Tagged) (inner : Nat → Nat → Tagged) : Expr → Tagged
  | .name id => .plain (view.calleeName id)
  | .attribute value attr =>
    value.enclosed (inner 0 0) ++ .plain ("." ++ view.methodName value attr)
  | func => func.enclosed (m 0)

/-- One comparison, whose left operand is the `n`-th part of the chain. The items of a literal
collection are parts of its right operand. -/
def linkTagged (m : Nat → Tagged) (inner : Nat → Nat → Tagged) (n : Nat) (left : Expr)
    (op : Comparison) (right : Expr) : Tagged :=
  match op.target?, right.literalItems? with
  | some token, _ =>
    left.enclosed (m n) ++ .plain (" " ++ token ++ " ") ++ right.enclosed (m (n + 1))
  | none, some [] => .plain (emptyMemberTest (op == .notMember))
  | none, some items =>
    .separated (if op == .notMember then " && " else " || ")
      (listed (fun item text => left.enclosed (m n) ++
        .plain (if op == .notMember then " != " else " == ") ++ item.enclosed text)
        (inner (n + 1)) 0 items)
  | none, none =>
    .plain (if op == .notMember then "!" else "") ++ m (n + 1) ++ .plain ".contains(" ++ m n ++
      .plain ")"

/-- The comparisons of a chain. -/
def linksTagged (m : Nat → Tagged) (inner : Nat → Nat → Tagged) :
    Nat → Expr → List Comparison → List Expr → List Tagged
  | n, left, op :: ops, right :: rest =>
    linkTagged m inner n left op right :: linksTagged m inner (n + 1) right ops rest
  | _, _, _, _ => []

/-- A chain of comparisons. -/
def conjunctionTagged : List Tagged → Tagged
  | [m] => m
  | ms => .separated " && " (ms.map Tagged.parenthesize)

/-- The lower bound of a slice. -/
def lowerTagged (m : Nat → Tagged) : Option Expr → Tagged
  | some bound => bound.enclosed (m 0)
  | none => .plain "0"

/-- The upper bound of a slice. -/
def upperTagged (m : Tagged) : Option Expr → Tagged
  | some bound =>
    match bound.integerValue? with
    | some value => .plain (Text.writeInt (value - 1))
    | none => bound.enclosed m ++ .plain " - 1"
  | none => .plain "-1"

/-- The tagged text of an expression, given those of its parts and of the parts of these. A set and
an unpacked value are never written alone. -/
def compose (view : View) (m : Nat → Tagged) (inner : Nat → Nat → Tagged) : Expr → Tagged
  | .name id => .plain id
  | .attribute value attr => value.enclosed (m 0) ++ .plain ("." ++ attr)
  | .constant value => .plain value.render
  | .call func args _ =>
    .call [] (calleeTagged view m inner func ++ .plain "(" ++
      .separated ", " (listed (argument view) m 1 args) ++ .plain ")")
  | .binary left op right =>
    left.enclosed (m 0) ++ .plain (" " ++ op.target?.getD "" ++ " ") ++ right.enclosed (m 1)
  | .unary op operand => .plain op.target ++ operand.enclosed (m 0)
  | .boolean op values => .separated (" " ++ op.target ++ " ") (listed enclosed m 0 values)
  | .compare left ops comparators => conjunctionTagged (linksTagged m inner 0 left ops comparators)
  | .conditional test body orelse =>
    test.enclosed (m 0) ++ .plain " ? " ++ body.enclosed (m 1) ++ .plain " : " ++
      orelse.enclosed (m 2)
  | .dict entries =>
    .plain "\x7b" ++ .separated ", " (entriesTagged m 0 entries) ++ .plain "\x7d"
  | .list items => .plain "[" ++ .separated ", " (listed (fun _ m => m) m 0 items) ++ .plain "]"
  | .tuple items => .plain "(" ++ .separated ", " (listed (fun _ m => m) m 0 items) ++ .plain ")"
  | .set items => .separated ", " (listed (fun _ m => m) m 0 items)
  | .subscript value _ => value.enclosed (m 0) ++ .plain "[" ++ m 1 ++ .plain "]"
  | .slice lower upper _ =>
    lowerTagged m lower ++ .plain ".." ++ upperTagged (m lower.toList.length) upper
  | .lambda params _ =>
    .plain (if params.isEmpty then "/-> " else "/" ++ commaSeparated params ++ " -> ") ++ m 0
  | .template pieces =>
    if hasValues pieces then
      .plain ("string.format(" ++ Text.quote (templateFormat pieces) ++ ", ") ++
        .separated ", " (listed (fun _ m => m) m 0 (embedded pieces)) ++ .plain ")"
    else .plain (Text.quote (templateLiteral pieces))
  | .starred _ => m 0
  | .unsupported _ => .plain ""

/-- An expression written with tags. -/
def tag (view : View) (e : Expr) : Tagged :=
  compose view
    (fun i =>
      match _h : e.parts[i]? with
      | some part => (tag view part).shift i
      | none => .plain "")
    (fun i k =>
      match _h : e.parts[i]? with
      | some part =>
        match _h' : part.parts[k]? with
        | some inner => ((tag view inner).shift k).shift i
        | none => .plain ""
      | none => .plain "")
    e
termination_by sizeOf e
decreasing_by
  · exact sizeOf_lt_of_mem_parts (List.mem_of_getElem? ‹_›)
  · have h₁ := sizeOf_lt_of_mem_parts (List.mem_of_getElem? _h)
    have h₂ := sizeOf_lt_of_mem_parts (List.mem_of_getElem? _h')
    omega

/-- The tagged text of a part. -/
def tagPart (view : View) (e : Expr) (i : Nat) : Tagged :=
  match e.parts[i]? with
  | some part => (part.tag view).shift i
  | none => .plain ""

/-- The tagged text of a part of a part. -/
def tagInner (view : View) (e : Expr) (i k : Nat) : Tagged :=
  match e.parts[i]? with
  | some part => (part.tagPart view k).shift i
  | none => .plain ""

theorem tag_eq (view : View) (e : Expr) :
    e.tag view = compose view (e.tagPart view) (e.tagInner view) e := by
  have part : (fun i => match _h : e.parts[i]? with
      | some part => (part.tag view).shift i
      | none => .plain "") = e.tagPart view := by
    funext i
    unfold tagPart
    split <;> simp_all
  rw [tag, part]
  congr 1
  funext i k
  unfold tagInner tagPart
  split
  · split <;> simp_all [Tagged.shift]
  · simp_all

/-! ## Counts -/

@[simp] theorem count_enclosed (a : Address) (e : Expr) (m : Tagged) :
    (e.enclosed m).count a = m.count a := by
  unfold enclosed
  split
  · exact Tagged.count_parenthesize a m
  · rfl

@[simp] theorem count_argument (a : Address) (view : View) (e : Expr) (m : Tagged) :
    (argument view e m).count a = m.count a := by
  unfold argument
  split
  · simp
  · rfl

/-- Every expression of a list counts once, and so much besides as it is put behind. -/
theorem count_listed {a : Address} {put : Expr → Tagged → Tagged} (more : Nat)
    (hput : ∀ e m, (put e m).count a = more + m.count a) (m : Nat → Tagged) (n : Nat)
    (es : List Expr) :
    Tagged.countAll a (listed put m n es) =
      es.length * more + weigh (fun i => (m i).count a) n (List.replicate es.length 1) := by
  induction es generalizing n with
  | nil => simp [listed]
  | cons e es ih =>
    simp only [listed, Tagged.countAll_cons, hput, ih, List.length_cons, List.replicate_succ,
      weigh_cons, Nat.succ_mul]
    omega

theorem count_entriesTagged (a : Address) (m : Nat → Tagged) (n : Nat)
    (entries : List (Expr × Expr)) :
    Tagged.countAll a (entriesTagged m n entries) =
      weigh (fun i => (m i).count a) n
        (List.replicate (entries.flatMap fun entry => [entry.1, entry.2]).length 1) := by
  induction entries generalizing n with
  | nil => rfl
  | cons entry entries ih =>
    have length : ((entry :: entries).flatMap fun entry => [entry.1, entry.2]).length =
        (entries.flatMap fun entry => [entry.1, entry.2]).length + 2 := by
      rw [List.flatMap_cons, List.length_append, Nat.add_comm]
      rfl
    rw [length, List.replicate_succ, List.replicate_succ, weigh_cons, weigh_cons,
      Nat.add_assoc n, entriesTagged, Tagged.countAll_cons, ih]
    simp only [Tagged.count_append, Tagged.count_plain, Nat.reduceAdd]
    omega

theorem count_conjunctionTagged (a : Address) (ms : List Tagged) :
    (conjunctionTagged ms).count a = Tagged.countAll a ms := by
  have parenthesized : Tagged.countAll a (ms.map Tagged.parenthesize) = Tagged.countAll a ms := by
    induction ms with
    | nil => rfl
    | cons m ms ih =>
      rw [List.map_cons, Tagged.countAll_cons, Tagged.count_parenthesize, ih, Tagged.countAll_cons]
  unfold conjunctionTagged
  split
  · simp
  · rw [Tagged.count_separated, parenthesized]

/-- The parts of a list, tuple or set are all written once. -/
theorem factors_of_literalItems? {e : Expr} {items : List Expr} (h : e.literalItems? = some items) :
    e.factors = List.replicate items.length 1 := by
  cases e <;> simp_all [literalItems?, factors, parts]

/-- The parts of a part add up to the part, where it may be written part by part. -/
def Splits (a : Address) (m : Nat → Tagged) (inner : Nat → Nat → Tagged) (i : Nat) (part : Expr) :
    Prop :=
  part.isCall = false →
    (m i).count a = weigh (fun k => (inner i k).count a) 0 part.factors

/-- A comparison counts its left operand as often as it is written, and its right one once. -/
theorem count_linkTagged {a : Address} {m : Nat → Tagged} {inner : Nat → Nat → Tagged} {n : Nat}
    {right : Expr} (h : Splits a m inner (n + 1) right) (left : Expr) (op : Comparison) :
    (linkTagged m inner n left op right).count a =
      leftFactor op right * (m n).count a + (m (n + 1)).count a := by
  unfold linkTagged leftFactor
  cases ht : op.target? with
  | some token => simp
  | none =>
    cases hi : right.literalItems? with
    | none =>
      simp
      omega
    | some items =>
      -- the items are written and not the literal, so they have to count what it does
      have split := h (by cases right <;> first | rfl | cases hi)
      rw [factors_of_literalItems? hi] at split
      cases items with
      | nil => simpa using split.symm
      | cons item items =>
        simp only [Tagged.count_separated]
        rw [count_listed ((m n).count a) (fun e m => by simp), ← split]

/-- A chain counts its operands as often as they are written. -/
theorem count_linksTagged {a : Address} {m : Nat → Tagged} {inner : Nat → Nat → Tagged} (n : Nat)
    (left : Expr) (ops : List Comparison) {comparators : List Expr}
    (h : ∀ j right, comparators[j]? = some right → Splits a m inner (n + 1 + j) right) :
    Tagged.countAll a (linksTagged m inner n left ops comparators) =
      weigh (fun i => (m i).count a) n
        (firstFactor ops comparators :: laterFactors ops comparators) := by
  induction comparators generalizing n left ops with
  | nil => cases ops <;> simp [linksTagged, firstFactor, laterFactors]
  | cons right rest ih =>
    cases ops with
    | nil => simp [linksTagged, firstFactor, laterFactors]
    | cons op ops =>
      have here := count_linkTagged (h 0 right rfl) left op
      have later := ih (n + 1) right ops fun j e he => by
        have := h (j + 1) e (by simpa using he)
        rwa [Nat.add_assoc (n + 1), Nat.add_comm 1 j]
      rw [linksTagged, Tagged.countAll_cons, here, later]
      simp only [firstFactor, laterFactors, weigh_cons, Nat.add_mul, Nat.one_mul]
      omega

theorem count_calleeTagged {a : Address} {view : View} {m : Nat → Tagged}
    {inner : Nat → Nat → Tagged} {func : Expr} (h : Splits a m inner 0 func) :
    (calleeTagged view m inner func).count a = (m 0).count a := by
  unfold calleeTagged
  split
  · have split := h rfl
    simpa [factors, parts] using split.symm
  · have split := h rfl
    simpa [factors, parts] using split.symm
  · simp

theorem count_upperTagged (a : Address) (m : Tagged) (upper : Option Expr) :
    (upperTagged m upper).count a =
      weigh (fun _ => m.count a) 0
        (upper.toList.map fun bound => if bound.integerValue?.isSome then 0 else 1) := by
  unfold upperTagged
  split
  · rename_i bound
    split <;> simp_all
  · rfl

theorem embedded_of_not_hasValues {pieces : List (TemplatePart Expr)}
    (h : hasValues pieces = false) : embedded pieces = [] := by
  induction pieces with
  | nil => rfl
  | cons piece pieces ih =>
    cases piece with
    | text text => exact ih h
    | value e => cases h

/-- The whole counts itself if it is a call, and its parts as often as they are written. -/
theorem count_compose {a : Address} {view : View} {m : Nat → Tagged} {inner : Nat → Nat → Tagged}
    {e : Expr} (h : ∀ i part, e.parts[i]? = some part → Splits a m inner i part) :
    (compose view m inner e).count a =
      (if e.isCall ∧ a = [] then 1 else 0) + weigh (fun i => (m i).count a) 0 e.factors := by
  have items (put : Expr → Tagged → Tagged) (hput : ∀ e m, (put e m).count a = m.count a)
      (n : Nat) (es : List Expr) : Tagged.countAll a (listed put m n es) =
        weigh (fun i => (m i).count a) n (List.replicate es.length 1) := by
    simpa using count_listed 0 (by simpa using hput) m n es
  match e with
  | .name id => simp [compose, factors, parts, isCall]
  | .attribute value attr => simp [compose, factors, parts, isCall]
  | .constant value => simp [compose, factors, parts, isCall]
  | .call func args keywords =>
    have callee : (calleeTagged view m inner func).count a = (m 0).count a :=
      count_calleeTagged (h 0 func rfl)
    simp [compose, factors, isCall, Tagged.count, weigh_append, callee,
      items (argument view) (fun e m => count_argument a view e m), eq_comm]
  | .binary left op right => simp [compose, factors, parts, isCall]
  | .unary op operand => simp [compose, factors, parts, isCall]
  | .boolean op values => simp [compose, factors, parts, isCall, items enclosed]
  | .compare left ops comparators =>
    have split (j : Nat) (right : Expr) (hj : comparators[j]? = some right) :
        Splits a m inner (0 + 1 + j) right := by
      have := h (j + 1) right (by simpa [parts] using hj)
      rwa [Nat.add_comm 0 1, Nat.add_comm 1 j]
    have links := count_linksTagged 0 left ops split
    simp [compose, factors, isCall, count_conjunctionTagged, links]
  | .conditional test body orelse =>
    simp [compose, factors, parts, isCall]
    omega
  | .dict entries => simp [compose, factors, isCall, count_entriesTagged, parts]
  | .list items' => simp [compose, factors, parts, isCall, items]
  | .tuple items' => simp [compose, factors, parts, isCall, items]
  | .set items' => simp [compose, factors, parts, isCall, items]
  | .subscript value index => simp [compose, factors, parts, isCall]
  | .slice lower upper step =>
    cases lower <;> cases upper <;>
      simp [compose, factors, isCall, lowerTagged, count_upperTagged]
  | .lambda params body => simp [compose, factors, parts, isCall]
  | .template pieces =>
    rw [compose]
    split
    · simp [factors, parts, isCall, items]
    · rename_i hv
      simp [factors, parts, isCall, embedded_of_not_hasValues (Bool.eq_false_iff.2 hv)]
  | .starred value => simp [compose, factors, parts, isCall]
  | .unsupported kind => simp [compose, factors, parts, isCall]

theorem count_tagPart_nil (view : View) (e : Expr) (i : Nat) :
    (e.tagPart view i).count [] = 0 := by
  unfold tagPart
  split
  · exact Tagged.count_shift_nil _ _
  · rfl

theorem count_tagPart_cons (view : View) (e : Expr) (i j : Nat) (a : Address) :
    (e.tagPart view i).count (j :: a) =
      if j = i then e.parts[i]?.elim 0 fun part => (part.tag view).count a else 0 := by
  unfold tagPart
  cases e.parts[i]? with
  | none => simp
  | some part => exact Tagged.count_shift_cons i j a _

/-- What is written of an expression adds up from its parts. -/
theorem count_tag_eq (view : View) (e : Expr) (a : Address) :
    (e.tag view).count a = (if e.isCall ∧ a = [] then 1 else 0) +
      weigh (fun i => (e.tagPart view i).count a) 0 e.factors := by
  induction e using induction_on_parts generalizing a with
  | step e ih =>
    rw [tag_eq]
    refine count_compose fun i part hi hcall => ?_
    have inner : e.tagInner view i = fun k => (part.tagPart view k).shift i := by
      funext k
      rw [tagInner, hi]
    rw [tagPart, hi, inner]
    cases a with
    | nil => simp
    | cons j a =>
      simp only [Tagged.count_shift_cons]
      by_cases hj : j = i
      · simpa [hj, hcall] using ih part (List.mem_of_getElem? hi) a
      · simp [hj]

/-- A call is written as often as the factors on the way to it say. -/
theorem count_tag (view : View) (e : Expr) (a : Address) : (e.tag view).count a = e.copies a := by
  induction a generalizing e with
  | nil =>
    rw [count_tag_eq]
    simp [count_tagPart_nil, copies]
  | cons i a ih =>
    have elsewhere (j : Nat) (hj : j ≠ i) : (e.tagPart view j).count (i :: a) = 0 := by
      rw [count_tagPart_cons, if_neg (Ne.symm hj)]
    rw [count_tag_eq, weigh_single elsewhere, count_tagPart_cons, copies]
    simp [ih]

/-! ## Texts -/

/-- The text of the call at an address, where it stands alone. -/
def CallText (view : View) (e : Expr) (a : Address) (text : String) : Prop :=
  ∃ call, e.at? a = some call ∧ call.isCall = true ∧ call.write view .whole = .ok text

/-- An expression in a position, given its tagged text where it stands alone. -/
def placed (pos : Position) (e : Expr) (m : Tagged) : Tagged :=
  if pos = .operand then e.enclosed m else m

/-- Where an expression could be written, it is written with tags to the same text. -/
def TagsRight (view : View) (e : Expr) : Prop :=
  ∀ (pos : Position) (text : String), e.write view pos = .ok text →
    (placed pos e (e.tag view)).Spells (CallText view e) text

theorem spells_enclosed {p : Address → String → Prop} {m : Tagged} {text : String}
    (h : m.Spells p text) (e : Expr) : (e.enclosed m).Spells p (e.enclose text) := by
  unfold enclosed enclose
  split
  · exact h.parenthesize
  · exact h

theorem shift_placed (pos : Position) (e : Expr) (m : Tagged) (i : Nat) :
    (placed pos e m).shift i = placed pos e (m.shift i) := by
  unfold placed enclosed
  split
  · split <;> rfl
  · rfl

variable {view : View}

/-- A part of an expression spells its text in the expression. -/
theorem spells_tagPart {e part : Expr} {i : Nat} (hi : e.parts[i]? = some part)
    (h : TagsRight view part) {pos : Position} {text : String}
    (ht : part.write view pos = .ok text) :
    (placed pos part (e.tagPart view i)).Spells (CallText view e) text := by
  rw [tagPart, hi, ← shift_placed]
  refine ((h pos text ht).mono fun a text ha => ?_).shift
  obtain ⟨call, hc, hcall⟩ := ha
  exact ⟨call, by simpa [at?, hi] using hc, hcall⟩

theorem spells_tagInner {e part inner : Expr} {i k : Nat} (hi : e.parts[i]? = some part)
    (hk : part.parts[k]? = some inner) (h : TagsRight view inner) {pos : Position} {text : String}
    (ht : inner.write view pos = .ok text) :
    (placed pos inner (e.tagInner view i k)).Spells (CallText view e) text := by
  rw [tagInner, hi, ← shift_placed]
  refine ((spells_tagPart hk h ht).mono fun a text ha => ?_).shift
  obtain ⟨call, hc, hcall⟩ := ha
  exact ⟨call, by simpa [at?, hi] using hc, hcall⟩

/-- The texts of a list of expressions, each put in its place. -/
theorem spells_listed {p : Address → String → Prop} {put : Expr → Tagged → Tagged}
    {m : Nat → Tagged} {r : Expr → String → Prop} {es : List Expr} {texts : List String}
    (h : List.Forall₂ r es texts) (n : Nat)
    (hput : ∀ k e text, es[k]? = some e → r e text → (put e (m (n + k))).Spells p text) :
    List.Forall₂ (Tagged.Spells p) (listed put m n es) texts := by
  induction h generalizing n with
  | nil => exact .nil
  | @cons e text es texts hr _ ih =>
    refine .cons (hput 0 e text rfl hr) (ih (n + 1) fun k e text he hr => ?_)
    have := hput (k + 1) e text (by simpa using he) hr
    rwa [Nat.add_comm k 1, ← Nat.add_assoc] at this

/-! ## The shapes of expressions -/

section

variable {e : Expr} (hp : ∀ part ∈ e.parts, TagsRight view part)
include hp

/-- A part that was written as an operand. -/
theorem spells_operand {part : Expr} {i : Nat} (hi : e.parts[i]? = some part) {text : String}
    (ht : part.write view .operand = .ok text) :
    (part.enclosed (e.tagPart view i)).Spells (CallText view e) text :=
  spells_tagPart hi (hp part (List.mem_of_getElem? hi)) ht

/-- A part that was written alone or between brackets. -/
theorem spells_alone {part : Expr} {i : Nat} (hi : e.parts[i]? = some part) {pos : Position}
    (hpos : pos ≠ .operand) {text : String} (ht : part.write view pos = .ok text) :
    (e.tagPart view i).Spells (CallText view e) text := by
  have spelled := spells_tagPart hi (hp part (List.mem_of_getElem? hi)) ht
  rwa [placed, if_neg hpos] at spelled

/-- Parts that follow each other and were written alone. -/
theorem spells_items {es : List Expr} {n : Nat}
    (hes : ∀ (k : Nat) (item : Expr), es[k]? = some item → e.parts[n + k]? = some item)
    {texts : List String} (ht : writeAll view .whole es = .ok texts) :
    List.Forall₂ (Tagged.Spells (CallText view e)) (listed (fun _ m => m) (e.tagPart view) n es)
      texts :=
  spells_listed (writeAll_eq_ok.1 ht) n fun k item _ hk hw =>
    spells_alone hp (hes k item hk) (by simp) hw

end

/-- What is called was written under its name for calls. -/
theorem spells_callee {func : Expr} {args : List Expr} {keywords : List (Keyword Expr)}
    (he : ∀ part ∈ (Expr.call func args keywords).parts,
      TagsRight view part ∧ ∀ inner ∈ part.parts, TagsRight view inner)
    {called : String} (h : callee view func = .ok called) :
    (calleeTagged view ((Expr.call func args keywords).tagPart view)
      ((Expr.call func args keywords).tagInner view) func).Spells
        (CallText view (.call func args keywords)) called := by
  have first : (Expr.call func args keywords).parts[0]? = some func := rfl
  have other (hw : func.write view .operand = .ok called) :
      (func.enclosed ((Expr.call func args keywords).tagPart view 0)).Spells
        (CallText view (.call func args keywords)) called :=
    spells_operand (fun part hm => (he part hm).1) first hw
  match func with
  | .name id =>
    obtain rfl := pure_eq_ok.1 h
    exact .plain _
  | .attribute value attr =>
    simp only [callee, bind_eq_ok, pure_eq_ok] at h
    obtain ⟨receiver, hr, rfl⟩ := h
    have right := (he _ (List.mem_of_getElem? first)).2 value List.mem_cons_self
    have spelled := spells_tagInner first (k := 0) rfl right hr
    rw [String.append_assoc]
    exact spelled.append (.plain _)
  | .constant _ | .call .. | .binary .. | .unary .. | .boolean .. | .compare .. | .conditional ..
  | .dict _ | .list _ | .tuple _ | .set _ | .subscript .. | .slice .. | .lambda .. | .template _
  | .starred _ | .unsupported _ => exact other h

theorem memberTest_separated (negated : Bool) (value : String) (items : List String) :
    memberTest negated value items = separated (if negated then " && " else " || ")
      (items.map (value ++ (if negated then " != " else " == ") ++ ·)) := by
  cases negated <;> rfl

section

variable {e : Expr}
  (he : ∀ part ∈ e.parts, TagsRight view part ∧ ∀ inner ∈ part.parts, TagsRight view inner)
include he

/-- One comparison, between parts of a chain that follow each other. -/
theorem spells_link {n : Nat} {left right : Expr} {op : Comparison} (hl : e.parts[n]? = some left)
    (hr : e.parts[n + 1]? = some right) {text : String}
    (h : comparison view left op right = .ok text) :
    (linkTagged (e.tagPart view) (e.tagInner view) n left op right).Spells (CallText view e)
      text := by
  have hp : ∀ part ∈ e.parts, TagsRight view part := fun part hm => (he part hm).1
  unfold linkTagged
  rcases comparison_cases h with ⟨token, ht, a, ha, b, hb, rfl⟩ | ⟨ht, hi, rfl⟩ |
    ⟨ht, items, hi, hne, a, ha, texts, hts, rfl⟩ | ⟨ht, hi, -, collection, hc, a, ha, rfl⟩
  · rw [ht]
    have tagged := ((spells_operand hp hl ha).append (.plain (" " ++ token ++ " "))).append
      (spells_operand hp hr hb)
    simpa [String.append_assoc] using tagged
  · rw [ht, hi]
    exact .plain _
  · obtain ⟨item, rest, rfl⟩ := List.exists_cons_of_ne_nil hne
    rw [ht, hi, memberTest_separated]
    have tests : List.Forall₂ (fun item text => ∃ alone, item.write view .operand = .ok alone ∧
        a ++ (if op == .notMember then " != " else " == ") ++ alone = text) (item :: rest)
        (texts.map (a ++ (if op == .notMember then " != " else " == ") ++ ·)) :=
      List.forall₂_map_right_iff.2 ((writeAll_eq_ok.1 hts).imp fun _ text hw => ⟨text, hw, rfl⟩)
    refine .separated (spells_listed tests 0 ?_)
    rintro k item - hk ⟨alone, hw, rfl⟩
    have inside : right.parts[k]? = some item := by rwa [parts_of_literalItems? hi]
    have tagsRight := (he right (List.mem_of_getElem? hr)).2 item (List.mem_of_getElem? inside)
    rw [Nat.zero_add]
    exact ((spells_operand hp hl ha).append (.plain _)).append
      (spells_tagInner hr inside tagsRight hw)
  · rw [ht, hi]
    have tagged := ((((Tagged.Spells.plain (if op == .notMember then "!" else "")).append
      (spells_alone hp hr (by simp) hc)).append (.plain ".contains(")).append
      (spells_alone hp hl (by simp) ha)).append (.plain ")")
    exact tagged

/-- The comparisons of a chain. -/
theorem spells_links {n : Nat} {left : Expr} {ops : List Comparison} {comparators : List Expr}
    (hl : e.parts[n]? = some left)
    (hc : ∀ (j : Nat) (right : Expr), comparators[j]? = some right →
      e.parts[n + 1 + j]? = some right)
    {texts : List String}
    (h : List.Forall₂ (fun link text => comparison view link.1 link.2.1 link.2.2 = .ok text)
      (links left ops comparators) texts) :
    List.Forall₂ (Tagged.Spells (CallText view e))
      (linksTagged (e.tagPart view) (e.tagInner view) n left ops comparators) texts := by
  induction comparators generalizing n left ops texts with
  | nil =>
    cases ops <;> cases h <;> exact .nil
  | cons right rest ih =>
    cases ops with
    | nil =>
      cases h
      exact .nil
    | cons op ops =>
      cases h with
      | cons first later =>
        have hr : e.parts[n + 1]? = some right := hc 0 right rfl
        refine .cons (spells_link he hl hr first) (ih hr (fun j item hj => ?_) later)
        have := hc (j + 1) item (by simpa using hj)
        rwa [Nat.add_comm j 1, ← Nat.add_assoc] at this

end

theorem spells_conjunction {p : Address → String → Prop} {ms : List Tagged} {texts : List String}
    (h : List.Forall₂ (Tagged.Spells p) ms texts) :
    (conjunctionTagged ms).Spells p (conjunction texts) := by
  have parenthesized : List.Forall₂ (Tagged.Spells p) (ms.map Tagged.parenthesize)
      (texts.map parenthesize) :=
    List.forall₂_map_left_iff.2 (List.forall₂_map_right_iff.2 (h.imp fun _ _ => .parenthesize))
  unfold conjunctionTagged conjunction
  match h with
  | .nil => exact .separated parenthesized
  | .cons hm .nil => exact hm
  | .cons _ (.cons _ _) => exact .separated parenthesized

/-- The arguments of a call. -/
theorem spells_arguments {e : Expr} (hp : ∀ part ∈ e.parts, TagsRight view part) {args : List Expr}
    (hargs : ∀ (k : Nat) (arg : Expr), args[k]? = some arg → e.parts[1 + k]? = some arg)
    {texts : List String} (ht : writeArguments view args = .ok texts) :
    List.Forall₂ (Tagged.Spells (CallText view e)) (listed (argument view) (e.tagPart view) 1 args)
      texts := by
  refine spells_listed (writeArguments_eq_ok.1 ht) 1 ?_
  rintro k arg - hk ⟨alone, hw, rfl⟩
  have spelled := spells_alone hp (hargs k arg hk) (by simp) hw
  unfold argument View.asArgument
  split
  · exact ((Tagged.Spells.plain "/-> ").append spelled).append (.plain "()")
  · exact spelled

/-- The entries of a map literal. -/
theorem spells_entries {e : Expr} (hp : ∀ part ∈ e.parts, TagsRight view part) {n : Nat}
    {entries : List (Expr × Expr)}
    (hes : ∀ (k : Nat) (part : Expr), (entries.flatMap fun entry => [entry.1, entry.2])[k]? =
      some part → e.parts[n + k]? = some part)
    {texts : List String} (ht : writeEntries view entries = .ok texts) :
    List.Forall₂ (Tagged.Spells (CallText view e)) (entriesTagged (e.tagPart view) n entries)
      texts := by
  have written := writeEntries_eq_ok.1 ht
  clear ht
  induction written generalizing n with
  | nil => exact .nil
  | @cons entry text entries texts first _ ih =>
    obtain ⟨key, hk, value, hv, rfl⟩ := first
    have later (k : Nat) (part : Expr)
        (h : (entries.flatMap fun entry => [entry.1, entry.2])[k]? = some part) :
        e.parts[n + 2 + k]? = some part := by
      have := hes (k + 2) part (by simpa using h)
      rwa [Nat.add_comm k 2, ← Nat.add_assoc] at this
    exact .cons (((spells_alone hp (hes 0 _ rfl) (by simp) hk).append (.plain ": ")).append
      (spells_alone hp (hes 1 _ rfl) (by simp) hv)) (ih later)

/-- The bounds of a slice. -/
theorem spells_bounds {lower upper step : Option Expr}
    (hp : ∀ part ∈ (Expr.slice lower upper step).parts, TagsRight view part) {a b : String}
    (ha : lowerBound view lower = .ok a) (hb : upperBound view upper = .ok b) :
    (compose view ((Expr.slice lower upper step).tagPart view)
      ((Expr.slice lower upper step).tagInner view) (.slice lower upper step)).Spells
        (CallText view (.slice lower upper step)) (a ++ ".." ++ b) := by
  have first : (lowerTagged ((Expr.slice lower upper step).tagPart view) lower).Spells
      (CallText view (.slice lower upper step)) a := by
    cases lower with
    | none =>
      obtain rfl := pure_eq_ok.1 ha
      exact .plain _
    | some bound => exact spells_operand hp rfl ha
  refine (first.append (.plain "..")).append ?_
  cases upper with
  | none =>
    obtain rfl := pure_eq_ok.1 hb
    exact .plain _
  | some bound =>
    have second :
        (Expr.slice lower (some bound) step).parts[lower.toList.length]? = some bound := by
      simp [parts]
    cases hv : bound.integerValue? with
    | some value =>
      simp only [upperBound, hv, pure_eq_ok] at hb
      obtain rfl := hb
      simp only [upperTagged, hv]
      exact .plain _
    | none =>
      simp only [upperBound, hv, bind_eq_ok, pure_eq_ok] at hb
      obtain ⟨text, ht, rfl⟩ := hb
      simp only [upperTagged, hv]
      exact (spells_operand hp second ht).append (.plain _)

theorem enclose_of_ne_operand {pos : Position} (h : pos ≠ .operand) (text : String) :
    pos.enclose text = text := by
  cases pos <;> first | rfl | contradiction

/-- An expression that is no operand is written with tags as its parts are. -/
theorem spells_compose {e : Expr}
    (he : ∀ part ∈ e.parts, TagsRight view part ∧ ∀ inner ∈ part.parts, TagsRight view inner)
    {pos : Position} (hpos : pos ≠ .operand) {text : String} (h : e.write view pos = .ok text) :
    (compose view (e.tagPart view) (e.tagInner view) e).Spells (CallText view e) text := by
  have hp : ∀ part ∈ e.parts, TagsRight view part := fun part hm => (he part hm).1
  match e with
  | .name id =>
    simp only [write, pure_eq_ok] at h
    exact h ▸ .plain _
  | .attribute value attr =>
    obtain ⟨receiver, hr, rfl⟩ := write_attribute_eq_ok.1 h
    rw [String.append_assoc]
    exact (spells_operand hp rfl hr).append (.plain ("." ++ attr))
  | .constant value =>
    simp only [write, pure_eq_ok] at h
    exact h ▸ .plain _
  | .call func args keywords =>
    -- a call has the same text in every position
    have whole : (Expr.call func args keywords).write view .whole = .ok text := by
      rwa [write_call] at h ⊢
    obtain ⟨called, hc, rfl, texts, ht, rfl⟩ := write_call_eq_ok.1 h
    have positional (k : Nat) (arg : Expr) (hk : args[k]? = some arg) :
        (Expr.call func args []).parts[1 + k]? = some arg := by
      rw [Nat.add_comm]
      simpa [parts] using hk
    have arguments := spells_arguments hp positional ht
    exact .call ⟨_, rfl, rfl, whole⟩ ((((spells_callee he hc).append (.plain "(")).append
      (.separated arguments)).append (.plain ")"))
  | .binary left op right =>
    obtain ⟨token, ht, a, ha, b, hb, rfl⟩ := write_binary_eq_ok.1 h
    rw [enclose_of_ne_operand hpos, compose, ht]
    have first : (Expr.binary left op right).parts[0]? = some left := rfl
    have second : (Expr.binary left op right).parts[1]? = some right := rfl
    have tagged := ((spells_operand hp first ha).append (.plain (" " ++ token ++ " "))).append
      (spells_operand hp second hb)
    simpa [String.append_assoc] using tagged
  | .unary op operand =>
    obtain ⟨a, ha, rfl⟩ := write_unary_eq_ok.1 h
    rw [enclose_of_ne_operand hpos, ite_self]
    exact (Tagged.Spells.plain _).append (spells_operand hp rfl ha)
  | .boolean op values =>
    obtain ⟨texts, ht, rfl⟩ := write_boolean_eq_ok.1 h
    rw [enclose_of_ne_operand hpos]
    refine .separated (spells_listed (writeAll_eq_ok.1 ht) 0 fun k value _ hk hw => ?_)
    rw [Nat.zero_add]
    exact spells_operand hp hk hw
  | .compare left ops comparators =>
    obtain ⟨texts, ht, rfl⟩ := write_compare_eq_ok.1 h
    rw [enclose_of_ne_operand hpos]
    refine spells_conjunction (spells_links he rfl (fun j right hj => ?_) ht)
    rw [Nat.add_comm]
    exact hj
  | .conditional test body orelse =>
    obtain ⟨a, ha, b, hb, c, hc, rfl⟩ := write_conditional_eq_ok.1 h
    rw [enclose_of_ne_operand hpos]
    exact ((((spells_operand hp rfl ha).append (.plain " ? ")).append
      (spells_operand hp rfl hb)).append (.plain " : ")).append (spells_operand hp rfl hc)
  | .dict entries =>
    obtain ⟨texts, ht, rfl⟩ := write_dict_eq_ok.1 h
    refine ((Tagged.Spells.plain "\x7b").append (.separated (spells_entries hp ?_ ht))).append
      (.plain "\x7d")
    intro k part hk
    rwa [Nat.zero_add]
  | .list items =>
    obtain ⟨texts, ht, rfl⟩ := write_list_eq_ok.1 h
    refine ((Tagged.Spells.plain "[").append (.separated (spells_items hp ?_ ht))).append
      (.plain "]")
    intro k item hk
    rwa [Nat.zero_add]
  | .tuple items =>
    obtain ⟨-, texts, ht, rfl⟩ := write_tuple_eq_ok.1 h
    refine ((Tagged.Spells.plain "(").append (.separated (spells_items hp ?_ ht))).append
      (.plain ")")
    intro k item hk
    rwa [Nat.zero_add]
  | .set items => simp [write, throw_eq_ok] at h
  | .subscript value index =>
    obtain ⟨a, ha, b, hb, rfl⟩ := write_subscript_eq_ok.1 h
    exact (((spells_operand hp rfl ha).append (.plain "[")).append
      (spells_alone hp rfl (by simp) hb)).append (.plain "]")
  | .slice lower upper step =>
    obtain ⟨-, -, -, a, ha, b, hb, rfl⟩ := write_slice_eq_ok.1 h
    exact spells_bounds hp ha hb
  | .lambda params body =>
    obtain ⟨a, ha, rfl⟩ := write_lambda_eq_ok.1 h
    rw [enclose_of_ne_operand hpos]
    exact (Tagged.Spells.plain _).append (spells_alone hp rfl (by simp) ha)
  | .template pieces =>
    obtain ⟨texts, ht, rfl⟩ := write_template_eq_ok.1 h
    rw [compose, templateCall]
    split
    · refine ((Tagged.Spells.plain _).append (.separated (spells_items hp ?_ ht))).append
        (.plain ")")
      intro k item hk
      rwa [Nat.zero_add]
    · exact .plain _
  | .starred value => simp [write, throw_eq_ok] at h
  | .unsupported kind => simp [write, throw_eq_ok] at h

/-- Whatever could be written is written with tags to the same text, and what is tagged as written
for a call is the text of that call. -/
theorem tagsRight (view : View) (e : Expr) : TagsRight view e := by
  induction e using induction_on_inner_parts with
  | step e he =>
    intro pos text h
    rw [tag_eq]
    by_cases hpos : pos = .operand
    · obtain ⟨alone, ha, rfl⟩ := write_operand_eq_ok.1 (hpos ▸ h)
      rw [placed, if_pos hpos]
      exact spells_enclosed (spells_compose he (by simp) ha) e
    · rw [placed, if_neg hpos]
      exact spells_compose he hpos h

end Berrify.Expr
