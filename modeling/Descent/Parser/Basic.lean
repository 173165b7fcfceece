import Descent.Outcome

/-!
A parser is known in advance to succeed (`always`) or to fail (`never`), or it is a `step` that has to look
at the input. The operations settle what they can from the first two forms, and a `never` calls no
continuation.
-/

namespace Descent

/-- What was read, and the input that is left, which is to be an end of the input that was given. -/
structure Parsed (α : Type) where
  value : α
  rest : List Char
  deriving DecidableEq, Repr

def Parsed.map {α β : Type} (f : α → β) (parsed : Parsed α) : Parsed β :=
  ⟨f parsed.value, parsed.rest⟩

inductive Parser (α : Type) where
  | always (value : α)
  | never (error : Mismatch)
  | step (run : List Char → Outcome (Parsed α))

namespace Parser

variable {α β γ : Type}

inductive Kind where
  | always
  | never
  | step
  deriving DecidableEq, Repr

def kind : Parser α → Kind
  | always _ => .always
  | never _ => .never
  | step _ => .step

def run : Parser α → List Char → Outcome (Parsed α)
  | always value, input => .ok ⟨value, input⟩
  | never error, _ => .fail error
  | step run, input => run input

/-- Reads `p`, then whatever parser `f` makes of its value. -/
def bind (p : Parser α) (f : α → Parser β) : Parser β :=
  match p with
  | always value => f value
  | never error => never error
  | step run => step fun input => (run input).bind fun r => (f r.value).run r.rest

/-- Tries `q` on the same input when `p` fails, however much `p` had read. -/
def orElse (p q : Parser α) : Parser α :=
  match p with
  | always value => always value
  | never _ => q
  | step run => step fun input => (run input).recover fun _ => q.run input

def map (f : α → β) (p : Parser α) : Parser β :=
  match p with
  | always value => always (f value)
  | never error => never error
  | step run => (step run).bind fun value => always (f value)

def keepRight (p : Parser α) (q : Parser β) : Parser β :=
  match p with
  | always _ => q
  | never error => never error
  | step run => (step run).bind fun _ => q

def replace (p : Parser α) (value : β) : Parser β :=
  match p with
  | always _ => always value
  | never error => never error
  | step run => (step run).keepRight (always value)

def keepLeft (p : Parser α) (q : Parser β) : Parser α :=
  match p with
  | always value => q.replace value
  | never error => never error
  | step run => (step run).bind fun value => q.replace value

def pair (p : Parser α) (q : Parser β) : Parser (α × β) :=
  p.bind fun a => q.map fun b => (a, b)

/-- Names what was expected; what was found instead stays. -/
def label (p : Parser α) (name : String) : Parser α :=
  match p with
  | always value => always value
  | never error => never (error.expecting name)
  | step run => step fun input => (run input).mapError (Mismatch.expecting name)

/-- Fails after reading `p` when its value is not accepted. -/
def satisfy (p : Parser α) (accepts : α → Bool) (error : α → Mismatch) : Parser α :=
  p.bind fun value => if accepts value then always value else never (error value)

instance : Monad Parser where
  pure := always
  map := map
  bind := bind

instance : OrElse (Parser α) := ⟨fun p q => p.orElse (q ())⟩
instance : HAdd (Parser α) (Parser β) (Parser (α × β)) := ⟨pair⟩
instance : HSub (Parser α) (Parser β) (Parser α) := ⟨keepLeft⟩
instance : HMul (Parser α) (Parser β) (Parser β) := ⟨keepRight⟩
instance : HOr (Parser α) (Parser α) (Parser α) := ⟨orElse⟩
instance : HShiftRight (Parser α) (α → β) (Parser β) := ⟨fun p f => p.map f⟩

theorem map_eq_bind (h : α → β) (p : Parser α) : p.map h = p.bind fun x => always (h x) := by
  cases p <;> rfl

theorem keepRight_eq_bind (p : Parser α) (q : Parser β) : p.keepRight q = p.bind fun _ => q := by
  cases p <;> rfl

theorem replace_eq_map (p : Parser α) (value : β) : p.replace value = p.map fun _ => value := by
  cases p <;> rfl

theorem keepLeft_eq_bind (p : Parser α) (q : Parser β) :
    p.keepLeft q = p.bind fun a => q.map fun _ => a := by
  cases p with
  | always value => exact replace_eq_map q value
  | never error => rfl
  | step run => simp only [keepLeft, replace_eq_map]

@[simp] theorem run_always (value : α) (input : List Char) :
    (always value).run input = .ok ⟨value, input⟩ := rfl

@[simp] theorem run_never (error : Mismatch) (input : List Char) :
    (never error : Parser α).run input = .fail error := rfl

@[simp] theorem run_step (run : List Char → Outcome (Parsed α)) : (step run).run = run := rfl

@[simp] theorem run_bind (p : Parser α) (f : α → Parser β) (input : List Char) :
    (p.bind f).run input = (p.run input).bind fun r => (f r.value).run r.rest := by
  cases p <;> rfl

@[simp] theorem run_orElse (p q : Parser α) (input : List Char) :
    (p.orElse q).run input = (p.run input).recover fun _ => q.run input := by
  cases p <;> rfl

@[simp] theorem run_map (f : α → β) (p : Parser α) (input : List Char) :
    (p.map f).run input = (p.run input).map (Parsed.map f) := by
  cases p with
  | always value => rfl
  | never error => rfl
  | step run => exact Outcome.bind_ok (run input) (Parsed.map f)

@[simp] theorem run_keepRight (p : Parser α) (q : Parser β) (input : List Char) :
    (p.keepRight q).run input = (p.run input).bind fun r => q.run r.rest := by
  cases p <;> rfl

@[simp] theorem run_replace (p : Parser α) (value : β) (input : List Char) :
    (p.replace value).run input = (p.run input).map fun r => ⟨value, r.rest⟩ := by
  cases p with
  | always value => rfl
  | never error => rfl
  | step run => exact Outcome.bind_ok (run input) fun r => Parsed.mk value r.rest

@[simp] theorem run_keepLeft (p : Parser α) (q : Parser β) (input : List Char) :
    (p.keepLeft q).run input =
      (p.run input).bind fun r => (q.run r.rest).map fun s => ⟨r.value, s.rest⟩ := by
  cases p with
  | always value => simp [keepLeft, Outcome.bind]
  | never error => rfl
  | step run => simp [keepLeft]

@[simp] theorem run_pair (p : Parser α) (q : Parser β) (input : List Char) :
    (p.pair q).run input =
      (p.run input).bind fun r => (q.run r.rest).map fun s => ⟨(r.value, s.value), s.rest⟩ := by
  simp only [pair, run_bind, run_map]
  rfl

@[simp] theorem run_label (p : Parser α) (name : String) (input : List Char) :
    (p.label name).run input =
      (p.run input).mapError (Mismatch.expecting name) := by
  cases p <;> rfl

@[simp] theorem run_satisfy (p : Parser α) (accepts : α → Bool) (error : α → Mismatch)
    (input : List Char) :
    (p.satisfy accepts error).run input =
      (p.run input).bind fun r =>
        if accepts r.value then .ok r else .fail (error r.value) := by
  simp only [satisfy, run_bind]
  congr 1
  funext r
  split <;> rfl

end Parser

end Descent
