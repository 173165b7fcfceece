namespace Descent

abbrev Fallible (ε α : Type) := Except ε α

namespace Fallible

variable {ε ε' α β : Type}

def fold (x : Fallible ε α) (onOk : α → β) (onError : ε → β) : β :=
  match x with
  | .ok value => onOk value
  | .error cause => onError cause

def orDefault (x : Fallible ε α) (default : α) : α :=
  match x with
  | .ok value => value
  | .error _ => default

def throwing (x : Fallible ε α) (message : ε → String) : Except String α :=
  match x with
  | .ok value => .ok value
  | .error cause => .error (message cause)

def andThen (x : Fallible ε α) (f : α → Fallible ε β) : Fallible ε β :=
  match x with
  | .ok value => f value
  | .error cause => .error cause

/-- Goes on after a failure, perhaps with another kind of cause. -/
def recover (x : Fallible ε α) (f : ε → Fallible ε' α) : Fallible ε' α :=
  match x with
  | .ok value => .ok value
  | .error cause => f cause

def replace (x : Fallible ε α) (value : β) : Fallible ε β :=
  match x with
  | .ok _ => .ok value
  | .error cause => .error cause

end Fallible

/-- What one move shows: the state it leads to, the value that it collapses the state to, or the message
it stops with. -/
inductive Shown (σ α : Type) where
  | state (state : σ)
  | value (value : α)
  | thrown (message : String)
  deriving DecidableEq, Repr

namespace Fallible

/-- One operation of a chain, which may lead from values of one type to values of another. -/
inductive Move (ε α : Type) : Type → Type 1
  | andThen {β : Type} (f : α → Fallible ε β) : Move ε α β
  | recover (f : ε → Fallible ε α) : Move ε α α
  | replace {β : Type} (value : β) : Move ε α β
  | fold {β : Type} (onOk : α → β) (onError : ε → β) : Move ε α β
  | orDefault (default : α) : Move ε α α
  | throwing (message : ε → String) : Move ε α α

/-- A collapsing move goes on with a success; one that stops leaves the state as it was. -/
def Move.apply {ε α β : Type} (x : Fallible ε α) :
    Move ε α β → Fallible ε β × Shown (Fallible ε β) β
  | andThen f => (x.andThen f, .state (x.andThen f))
  | recover f => (x.recover f, .state (x.recover f))
  | replace value => (x.replace value, .state (x.replace value))
  | fold onOk onError => (.ok (x.fold onOk onError), .value (x.fold onOk onError))
  | orDefault default => (.ok (x.orDefault default), .value (x.orDefault default))
  | throwing message =>
    match x.throwing message with
    | .ok value => (.ok value, .value value)
    | .error stop => (x, .thrown stop)

abbrev Step (ε α : Type) := Move ε α α

def runSteps {ε α : Type} (x : Fallible ε α) :
    List (Step ε α) → List (Shown (Fallible ε α) α)
  | [] => []
  | step :: steps =>
    let applied := step.apply x
    applied.2 :: runSteps applied.1 steps

end Fallible

end Descent
