/-!
What running a parser comes to: a value, a mismatch between the text and what was expected there, or a
run that has no end because a repetition keeps succeeding without consuming anything. The last is only
meant for parsers whose successes leave an end of the text that they were given.
-/

namespace Descent

structure Mismatch where
  expected : String
  actual : String
  deriving DecidableEq, Repr

def Mismatch.message (error : Mismatch) : String :=
  "expected " ++ error.expected ++ ", found " ++ error.actual

def Mismatch.expecting (name : String) (error : Mismatch) : Mismatch := ⟨name, error.actual⟩

inductive Outcome (α : Type) where
  | ok (value : α)
  | fail (error : Mismatch)
  | stalled
  deriving DecidableEq, Repr

namespace Outcome

variable {α β γ : Type}

def map (f : α → β) : Outcome α → Outcome β
  | ok value => ok (f value)
  | fail error => fail error
  | stalled => stalled

def bind : Outcome α → (α → Outcome β) → Outcome β
  | ok value, f => f value
  | fail error, _ => fail error
  | stalled, _ => stalled

/-- Goes on after a failure; an endless run cannot be recovered from. -/
def recover : Outcome α → (Mismatch → Outcome α) → Outcome α
  | ok value, _ => ok value
  | fail error, f => f error
  | stalled, _ => stalled

def mapError (f : Mismatch → Mismatch) : Outcome α → Outcome α
  | ok value => ok value
  | fail error => fail (f error)
  | stalled => stalled

instance : Monad Outcome where
  pure := ok
  map := map
  bind := bind

instance : LawfulMonad Outcome :=
  LawfulMonad.mk' _ (fun x => by cases x <;> rfl) (fun _ _ => rfl) (fun x _ _ => by cases x <;> rfl)
    (fun _ _ => rfl) (fun _ _ => rfl) (fun _ _ => rfl) (fun _ x => by cases x <;> rfl)

@[simp] theorem map_id (x : Outcome α) : x.map id = x := by cases x <;> rfl

@[simp] theorem map_map (f : α → β) (g : β → γ) (x : Outcome α) :
    (x.map f).map g = x.map fun a => g (f a) := by cases x <;> rfl

@[simp] theorem bind_assoc (x : Outcome α) (f : α → Outcome β) (g : β → Outcome γ) :
    (x.bind f).bind g = x.bind fun a => (f a).bind g := by cases x <;> rfl

@[simp] theorem map_bind (x : Outcome α) (f : α → Outcome β) (g : β → γ) :
    (x.bind f).map g = x.bind fun a => (f a).map g := by cases x <;> rfl

@[simp] theorem bind_map (f : α → β) (x : Outcome α) (g : β → Outcome γ) :
    (x.map f).bind g = x.bind fun a => g (f a) := by cases x <;> rfl

theorem bind_ok (x : Outcome α) (f : α → β) : (x.bind fun a => ok (f a)) = x.map f := by
  cases x <;> rfl

theorem map_eq_ok_iff {f : α → β} {x : Outcome α} {b : β} :
    x.map f = ok b ↔ ∃ a, x = ok a ∧ f a = b := by
  cases x <;> simp [map]

theorem bind_eq_ok_iff {x : Outcome α} {f : α → Outcome β} {b : β} :
    x.bind f = ok b ↔ ∃ a, x = ok a ∧ f a = ok b := by
  cases x <;> simp [bind]

theorem recover_eq_ok_iff {x : Outcome α} {f : Mismatch → Outcome α} {a : α} :
    x.recover f = ok a ↔ x = ok a ∨ ∃ error, x = fail error ∧ f error = ok a := by
  cases x <;> simp [recover]

theorem map_eq_fail_iff {f : α → β} {x : Outcome α} {error : Mismatch} :
    x.map f = fail error ↔ x = fail error := by
  cases x <;> simp [map]

theorem bind_eq_fail_iff {x : Outcome α} {f : α → Outcome β} {error : Mismatch} :
    x.bind f = fail error ↔ x = fail error ∨ ∃ a, x = ok a ∧ f a = fail error := by
  cases x <;> simp [bind]

theorem recover_eq_fail_iff {x : Outcome α} {f : Mismatch → Outcome α} {error : Mismatch} :
    x.recover f = fail error ↔ ∃ first, x = fail first ∧ f first = fail error := by
  cases x <;> simp [recover]

theorem map_eq_stalled_iff {f : α → β} {x : Outcome α} : x.map f = stalled ↔ x = stalled := by
  cases x <;> simp [map]

theorem bind_eq_stalled_iff {x : Outcome α} {f : α → Outcome β} :
    x.bind f = stalled ↔ x = stalled ∨ ∃ a, x = ok a ∧ f a = stalled := by
  cases x <;> simp [bind]

theorem recover_eq_stalled_iff {x : Outcome α} {f : Mismatch → Outcome α} :
    x.recover f = stalled ↔ x = stalled ∨ ∃ error, x = fail error ∧ f error = stalled := by
  cases x <;> simp [recover]

/-- What neither fails nor goes on for ever has a value. -/
theorem exists_eq_ok {x : Outcome α} (certain : ∀ error, x ≠ fail error) (ends : x ≠ stalled) :
    ∃ a, x = ok a := by
  cases x with
  | ok a => exact ⟨a, rfl⟩
  | fail error => exact absurd rfl (certain error)
  | stalled => exact absurd rfl ends

theorem mapError_eq_ok_iff {f : Mismatch → Mismatch} {x : Outcome α} {a : α} :
    x.mapError f = ok a ↔ x = ok a := by
  cases x <;> simp [mapError]

theorem mapError_eq_fail_iff {f : Mismatch → Mismatch} {x : Outcome α} {error : Mismatch} :
    x.mapError f = fail error ↔ ∃ first, x = fail first ∧ error = f first := by
  cases x <;> simp [mapError, eq_comm]

theorem mapError_eq_stalled_iff {f : Mismatch → Mismatch} {x : Outcome α} :
    x.mapError f = stalled ↔ x = stalled := by
  cases x <;> simp [mapError]

@[simp] theorem recover_assoc (x : Outcome α) (f g : Mismatch → Outcome α) :
    (x.recover f).recover g = x.recover fun e => (f e).recover g := by cases x <;> rfl

/-- A first step that both attempts share is carried out once. -/
theorem recover_bind (x : Outcome α) (f g : α → Outcome β) :
    ((x.bind f).recover fun _ => x.bind g) = x.bind fun a => (f a).recover fun _ => g a := by
  cases x <;> rfl

@[simp] theorem map_recover (f : α → β) (x : Outcome α) (g : Mismatch → Outcome α) :
    (x.recover g).map f = (x.map f).recover fun e => (g e).map f := by cases x <;> rfl

@[simp] theorem recover_mapError (f : Mismatch → Mismatch) (x : Outcome α)
    (g : Mismatch → Outcome α) : (x.mapError f).recover g = x.recover fun e => g (f e) := by
  cases x <;> rfl

@[simp] theorem mapError_recover (f : Mismatch → Mismatch) (x : Outcome α)
    (g : Mismatch → Outcome α) : (x.recover g).mapError f = x.recover fun e => (g e).mapError f := by
  cases x <;> rfl

theorem mapError_bind (f : Mismatch → Mismatch) (x : Outcome α) (g : α → Outcome β) :
    (x.bind g).mapError f = (x.mapError f).bind fun a => (g a).mapError f := by cases x <;> rfl

@[simp] theorem map_mapError (f : α → β) (g : Mismatch → Mismatch) (x : Outcome α) :
    (x.mapError g).map f = (x.map f).mapError g := by cases x <;> rfl

@[simp] theorem mapError_mapError (f g : Mismatch → Mismatch) (x : Outcome α) :
    (x.mapError f).mapError g = x.mapError fun e => g (f e) := by cases x <;> rfl

end Outcome

end Descent
