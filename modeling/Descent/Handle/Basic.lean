import Descent.Parser.Primitive

/-!
Every new step gets a mark of its own when it is built, and two handles are the same when they hold one
and the same marked step.
-/

namespace Descent

abbrev Mark := Nat

/-- Construction, with the next mark that no step has yet. -/
abbrev Build := StateM Mark

/-- Carries out a construction. Mark 0 is never given out, so a step that is built once for all may
have it. -/
def Build.result {α : Type} (construction : Build α) : α := (construction.run 1).1

/-- The mark is present exactly on a step. -/
structure Handle (α : Type) where
  parser : Parser α
  mark : Option Mark
  marked_iff : mark.isSome = true ↔ parser.kind = .step

namespace Handle

variable {α β : Type}

/-- The same step, not merely one that reads the same; what always or never succeeds has no identity. -/
def same (a b : Handle α) : Bool :=
  match a.mark, b.mark with
  | some m, some n => m == n
  | _, _ => false

def kind (h : Handle α) : Parser.Kind := h.parser.kind

def always (value : α) : Handle α := ⟨.always value, none, by simp [Parser.kind]⟩

def never (error : Mismatch) : Handle α := ⟨.never error, none, by simp [Parser.kind]⟩

/-- A step that carries the given mark. -/
def marked (mark : Mark) (run : List Char → Outcome (Parsed α)) : Handle α :=
  ⟨.step run, some mark, by simp [Parser.kind]⟩

/-- The parser as something new: a step takes the next mark. -/
def ofParser : Parser α → Build (Handle α)
  | .always value => pure (always value)
  | .never error => pure (never error)
  | .step run => do
    let mark ← getModify (· + 1)
    return marked mark run

def bind (h : Handle α) (f : α → Build (Handle β)) : Build (Handle β) :=
  match h.parser with
  | .always value => f value
  | p => ofParser (p.bind fun value => ((f value).run 0).1.parser)

def orElse (h other : Handle α) : Build (Handle α) :=
  match h.parser with
  | .never _ => pure other
  | p => ofParser (p.orElse other.parser)

def keepRight (h : Handle α) (next : Handle β) : Build (Handle β) :=
  match h.parser with
  | .always _ => pure next
  | p => ofParser (p.keepRight next.parser)

def keepLeft (h : Handle α) (next : Handle β) : Build (Handle α) :=
  ofParser (h.parser.keepLeft next.parser)

def map (f : α → β) (h : Handle α) : Build (Handle β) := ofParser (h.parser.map f)

def replace (h : Handle α) (value : β) : Build (Handle β) := ofParser (h.parser.replace value)

def pair (h : Handle α) (next : Handle β) : Build (Handle (α × β)) :=
  h.bind fun a => next.map fun b => (a, b)

def label (h : Handle α) (name : String) : Build (Handle α) := ofParser (h.parser.label name)

def satisfy (h : Handle α) (accepts : α → Bool) (error : α → Mismatch) : Build (Handle α) :=
  h.bind fun value => pure (if accepts value then always value else never (error value))

instance : HAdd (Handle α) (Handle β) (Build (Handle (α × β))) := ⟨pair⟩
instance : HSub (Handle α) (Handle β) (Build (Handle α)) := ⟨keepLeft⟩
instance : HMul (Handle α) (Handle β) (Build (Handle β)) := ⟨keepRight⟩
instance : HOr (Handle α) (Handle α) (Build (Handle α)) := ⟨orElse⟩
instance : HShiftRight (Handle α) (α → β) (Build (Handle β)) := ⟨fun h f => h.map f⟩

@[simp] theorem bind_always (value : α) (f : α → Build (Handle β)) :
    (always value).bind f = f value := rfl

@[simp] theorem orElse_never (error : Mismatch) (other : Handle α) :
    (never error).orElse other = pure other := rfl

@[simp] theorem keepRight_always (value : α) (next : Handle β) :
    (always value).keepRight next = pure next := rfl

theorem same_symm (a b : Handle α) : a.same b = b.same a := by
  cases ha : a.mark <;> cases hb : b.mark <;> simp [same, ha, hb, Bool.beq_comm]

theorem same_self (a : Handle α) : a.same a = true ↔ a.kind = .step := by
  rw [kind, ← a.marked_iff]
  cases ha : a.mark <;> simp [same, ha]

end Handle

end Descent
