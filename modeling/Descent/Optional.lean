import Descent.Fallible

namespace Descent

abbrev Optional (α : Type) := Option α

namespace Optional

variable {α β : Type}

def fold (x : Optional α) (onSome : α → β) (onNone : Unit → β) : β :=
  match x with
  | some value => onSome value
  | none => onNone ()

def orDefault (x : Optional α) (default : α) : α :=
  match x with
  | some value => value
  | none => default

def throwing (x : Optional α) (message : Unit → String) : Except String α :=
  match x with
  | some value => .ok value
  | none => .error (message ())

def andThen (x : Optional α) (f : α → Optional β) : Optional β :=
  match x with
  | some value => f value
  | none => none

def recover (x : Optional α) (f : Unit → Optional α) : Optional α :=
  match x with
  | some value => some value
  | none => f ()

def replace (x : Optional α) (value : β) : Optional β :=
  match x with
  | some _ => some value
  | none => none

/-- Nothing is missing but the cause. -/
def toFallible : Optional α → Fallible Unit α
  | some value => .ok value
  | none => .error ()

inductive Move (α : Type) : Type → Type 1
  | andThen {β : Type} (f : α → Optional β) : Move α β
  | recover (f : Unit → Optional α) : Move α α
  | replace {β : Type} (value : β) : Move α β
  | fold {β : Type} (onSome : α → β) (onNone : Unit → β) : Move α β
  | orDefault (default : α) : Move α α
  | throwing (message : Unit → String) : Move α α

def Move.apply {α β : Type} (x : Optional α) : Move α β → Optional β × Shown (Optional β) β
  | andThen f => (x.andThen f, .state (x.andThen f))
  | recover f => (x.recover f, .state (x.recover f))
  | replace value => (x.replace value, .state (x.replace value))
  | fold onSome onNone => (some (x.fold onSome onNone), .value (x.fold onSome onNone))
  | orDefault default => (some (x.orDefault default), .value (x.orDefault default))
  | throwing message =>
    match x.throwing message with
    | .ok value => (some value, .value value)
    | .error stop => (x, .thrown stop)

abbrev Step (α : Type) := Move α α

def runSteps {α : Type} (x : Optional α) : List (Step α) → List (Shown (Optional α) α)
  | [] => []
  | step :: steps =>
    let applied := step.apply x
    applied.2 :: runSteps applied.1 steps

end Optional

end Descent
