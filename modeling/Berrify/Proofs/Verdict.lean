import Berrify.Proofs.Success

/-!
# What becomes of a computation

`verdict` keeps of a computation only whether it succeeds and, if it fails, the sort of its failure.
Two computations put together from steps with equal verdicts have equal verdicts
(`verdict_bind`), whatever values the steps hand on : this is how two runs of the emitter are kept
in step although they write different texts and go through different scopes.

`Results` says something of the value or of the failure of a computation, and `FailsOnly` of its
failure alone; both go through the steps of a computation.

For a cause the sort is the construct that is refused, or that there is none because an assignment
target is to blame. A refusal has the sort of its cause, so neither `orRefuse` nor `locate` changes
a verdict.
-/

namespace Berrify

variable {ε κ α β γ δ : Type} {sort : ε → κ}

/-- Nothing if a computation succeeds, else the sort of its failure. -/
def verdict (sort : ε → κ) : Except ε α → Option κ
  | .ok _ => none
  | .error e => some (sort e)

@[simp] theorem verdict_pure (a : α) : verdict sort (pure a : Except ε α) = none := rfl

@[simp] theorem verdict_throw (e : ε) :
    verdict sort (throw e : Except ε α) = some (sort e) := rfl

theorem verdict_eq_none {x : Except ε α} : verdict sort x = none ↔ ∃ a, x = .ok a := by
  cases x <;> simp [verdict]

/-- Steps with equal verdicts, one after the other. -/
theorem verdict_bind {x : Except ε α} {y : Except ε β} {f : α → Except ε γ} {g : β → Except ε δ}
    (h : verdict sort x = verdict sort y)
    (hrest : ∀ a b, x = .ok a → y = .ok b → verdict sort (f a) = verdict sort (g b)) :
    verdict sort (x >>= f) = verdict sort (y >>= g) := by
  cases x with
  | ok a =>
    cases y with
    | ok b => exact hrest a b rfl rfl
    | error e => cases h
  | error e =>
    cases y with
    | ok b => cases h
    | error e' => exact h

/-- The same first step in both. -/
theorem verdict_bind_congr {x : Except ε α} {f : α → Except ε β} {g : α → Except ε γ}
    (h : ∀ a, verdict sort (f a) = verdict sort (g a)) :
    verdict sort (x >>= f) = verdict sort (x >>= g) := by
  cases x with
  | ok a => exact h a
  | error e => rfl

/-- What is made of the value of a computation does not matter. -/
@[simp] theorem verdict_map (f : α → β) (x : Except ε α) :
    verdict sort (x.map f) = verdict sort x := by
  cases x <;> rfl

/-- A last step that only puts the result together does not matter either. -/
theorem verdict_bind_pure {x : Except ε α} {y : Except ε β} {f : α → γ} {g : β → δ}
    (h : verdict sort x = verdict sort y) :
    verdict sort (x >>= fun a => pure (f a)) = verdict sort (y >>= fun b => pure (g b)) :=
  verdict_bind h fun _ _ _ _ => rfl

/-- The construct that a refusal is about. -/
def Refusal.construct? (r : Refusal) : Option String :=
  r.cause.construct?

theorem verdict_orRefuse (x : Except Cause α) :
    verdict Refusal.construct? (orRefuse x) = verdict Cause.construct? x := by
  cases x <;> rfl

/-- The line of a refusal leaves its construct alone. -/
theorem construct?_atLine (r : Refusal) (line : Nat) :
    (r.atLine line).construct? = r.construct? := by
  unfold Refusal.atLine
  split <;> rfl

theorem verdict_locate (line : Nat) (x : Except Refusal α) :
    verdict Refusal.construct? (locate line x) = verdict Refusal.construct? x := by
  cases x with
  | ok a => rfl
  | error r => exact congrArg some (construct?_atLine r line)

/-! ## Values and failures -/

section Results

variable {good : α → Prop} {good' : β → Prop} {bad : ε → Prop} {x : Except ε α}

/-- The value of a computation is good, or its failure is one that may be. -/
def Results (good : α → Prop) (bad : ε → Prop) : Except ε α → Prop
  | .ok a => good a
  | .error e => bad e

theorem Results.bind {f : α → Except ε β} (hx : Results good bad x)
    (hf : ∀ a, good a → Results good' bad (f a)) : Results good' bad (x >>= f) := by
  cases x with
  | ok a => exact hf a hx
  | error e => exact hx

theorem results_nil {p : α → Prop} :
    Results (∀ a ∈ ·, p a) bad (pure [] : Except ε (List α)) :=
  List.forall_mem_nil p

/-- A computation that fails only as it may. -/
def FailsOnly (bad : ε → Prop) (x : Except ε α) : Prop :=
  Results (fun _ => True) bad x

theorem Results.failsOnly (hx : Results good bad x) : FailsOnly bad x := by
  cases x with
  | ok a => trivial
  | error e => exact hx

theorem failsOnly_pure (a : α) : FailsOnly bad (pure a) :=
  trivial

theorem failsOnly_of_forall (h : ∀ e, bad e) (x : Except ε α) : FailsOnly bad x := by
  cases x with
  | ok a => trivial
  | error e => exact h e

theorem FailsOnly.bind {f : α → Except ε β} (hx : FailsOnly bad x)
    (hf : ∀ a, FailsOnly bad (f a)) : FailsOnly bad (x >>= f) :=
  Results.bind hx fun a _ => hf a

theorem FailsOnly.map {f : α → β} (hx : FailsOnly bad x) : FailsOnly bad (x.map f) := by
  cases x with
  | ok a => trivial
  | error e => exact hx

end Results

theorem failsOnly_orRefuse {bad : Refusal → Prop} {x : Except Cause α}
    (h : FailsOnly (fun cause => bad { cause }) x) : FailsOnly bad (orRefuse x) := by
  cases x with
  | ok a => trivial
  | error cause => exact h

end Berrify
