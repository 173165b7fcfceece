import Descent.Optional

namespace Descent

def Shown.mapState {σ τ α : Type} (f : σ → τ) : Shown σ α → Shown τ α
  | state s => state (f s)
  | value a => value a
  | thrown message => thrown message

/-- Operations in a row, each from the type at which the one before it arrives. -/
inductive Chain (Move : Type → Type → Type 1) : Type → Type 1
  | done {α : Type} : Chain Move α
  | more {α β : Type} (move : Move α β) (rest : Chain Move β) : Chain Move α

def Chain.map {Move Move' : Type → Type → Type 1} (f : ∀ {α β : Type}, Move α β → Move' α β) :
    {α : Type} → Chain Move α → Chain Move' α
  | _, done => done
  | _, more move rest => more (f move) (rest.map f)

namespace Fallible

def trace {ε : Type} : {α : Type} → Fallible ε α → Chain (Move ε) α →
    List (Σ β : Type, Fallible ε β × Shown (Fallible ε β) β)
  | _, _, .done => []
  | _, x, .more move rest => ⟨_, move.apply x⟩ :: trace (move.apply x).1 rest

end Fallible

namespace Optional

variable {α β : Type}

theorem toFallible_andThen (x : Optional α) (f : α → Optional β) :
    (x.andThen f).toFallible = x.toFallible.andThen fun a => (f a).toFallible := by
  cases x <;> rfl

theorem toFallible_recover (x : Optional α) (f : Unit → Optional α) :
    (x.recover f).toFallible = x.toFallible.recover fun _ => (f ()).toFallible := by
  cases x <;> rfl

theorem toFallible_replace (x : Optional α) (value : β) :
    (x.replace value).toFallible = x.toFallible.replace value := by
  cases x <;> rfl

theorem fold_toFallible (x : Optional α) (onSome : α → β) (onNone : Unit → β) :
    x.toFallible.fold onSome (fun _ => onNone ()) = x.fold onSome onNone := by
  cases x <;> rfl

theorem orDefault_toFallible (x : Optional α) (default : α) :
    x.toFallible.orDefault default = x.orDefault default := by
  cases x <;> rfl

theorem throwing_toFallible (x : Optional α) (message : Unit → String) :
    x.toFallible.throwing (fun _ => message ()) = x.throwing message := by
  cases x <;> rfl

def trace : {α : Type} → Optional α → Chain Move α →
    List (Σ β : Type, Optional β × Shown (Optional β) β)
  | _, _, .done => []
  | _, x, .more move rest => ⟨_, move.apply x⟩ :: trace (move.apply x).1 rest

/-- The same move over values with a cause, which it does not look at. -/
def Move.toFallible : Move α β → Fallible.Move Unit α β
  | andThen f => .andThen fun a => (f a).toFallible
  | recover f => .recover fun _ => (f ()).toFallible
  | replace value => .replace value
  | fold onSome onNone => .fold onSome fun _ => onNone ()
  | orDefault default => .orDefault default
  | throwing message => .throwing fun _ => message ()

/-- A state and what was shown with it, seen as values with a cause. -/
def withCause (applied : Optional α × Shown (Optional α) α) :
    Fallible Unit α × Shown (Fallible Unit α) α :=
  (applied.1.toFallible, applied.2.mapState toFallible)

theorem Move.apply_toFallible (move : Move α β) (x : Optional α) :
    move.toFallible.apply x.toFallible = withCause (move.apply x) := by
  cases move with
  | andThen f =>
      simp only [Move.toFallible, Fallible.Move.apply, ← toFallible_andThen]
      rfl
  | recover f =>
      simp only [Move.toFallible, Fallible.Move.apply, ← toFallible_recover]
      rfl
  | replace value =>
      simp only [Move.toFallible, Fallible.Move.apply, ← toFallible_replace]
      rfl
  | fold onSome onNone =>
      simp only [Move.toFallible, Fallible.Move.apply, fold_toFallible]
      rfl
  | orDefault default =>
      simp only [Move.toFallible, Fallible.Move.apply, orDefault_toFallible]
      rfl
  | throwing message =>
      simp only [Move.toFallible, Fallible.Move.apply, Move.apply, throwing_toFallible]
      cases x.throwing message <;> rfl

theorem trace_toFallible {α : Type} (chain : Chain Move α) (x : Optional α) :
    Fallible.trace x.toFallible (chain.map Move.toFallible) =
      (trace x chain).map fun applied => ⟨applied.1, withCause applied.2⟩ := by
  induction chain with
  | done => rfl
  | more move rest ih =>
      rw [Chain.map, Fallible.trace, trace, Move.apply_toFallible, List.map_cons]
      exact congrArg (List.cons _) (ih (move.apply x).1)

theorem runSteps_toFallible (steps : List (Step α)) (x : Optional α) :
    Fallible.runSteps x.toFallible (steps.map Move.toFallible) =
      (runSteps x steps).map (Shown.mapState toFallible) := by
  induction steps generalizing x with
  | nil => rfl
  | cons step steps ih =>
      rw [List.map_cons, Fallible.runSteps, runSteps, Move.apply_toFallible, List.map_cons]
      exact congrArg (List.cons _) (ih (step.apply x).1)

/-- A step that stops leaves its state to the next one. -/
example : Fallible.runSteps (toFallible (none : Optional Nat))
    ([.throwing fun _ => "gone", .recover fun _ => some 2, .fold (· + 1) fun _ => 0].map
      Move.toFallible) = [.thrown "gone", .state (.ok 2), .value 3] := rfl

/-- Behind every step of a chain the two states are the same but for the empty cause, and the two
sides have shown the same value or stopped with the same message. The types of the values may change
from step to step, and where they do not, this is what runs of steps at one type show. -/
theorem chain_in_step (x : Optional α) (chain : Chain Move α) (steps : List (Step α)) :
    Fallible.trace x.toFallible (chain.map Move.toFallible) =
        (trace x chain).map (fun applied => ⟨applied.1, withCause applied.2⟩) ∧
      Fallible.runSteps x.toFallible (steps.map Move.toFallible) =
        (runSteps x steps).map (Shown.mapState toFallible) :=
  ⟨trace_toFallible chain x, runSteps_toFallible steps x⟩

end Optional

end Descent
