import Descent.Proofs.Algebra
import Descent.Proofs.Failure

namespace Descent.Parser

variable {α : Type} {ps : List (Parser α)} {s : List Char}

/-- This parser is one of the list, and those in front of it fail on this text. -/
def Tried (ps : List (Parser α)) (s : List Char) (p : Parser α) : Prop :=
  ∃ front back, ps = front ++ p :: back ∧ ∀ q ∈ front, Refuses q s

theorem not_tried_nil {p : Parser α} : ¬Tried [] s p := by
  rintro ⟨front, back, split, refuse⟩
  exact List.append_ne_nil_of_right_ne_nil front (List.cons_ne_nil p back) split.symm

/-- The head of a list is tried first, and the others only if it fails. -/
theorem tried_cons_iff {p q : Parser α} :
    Tried (p :: ps) s q ↔ q = p ∨ (Refuses p s ∧ Tried ps s q) := by
  constructor
  · rintro ⟨front, back, split, refuse⟩
    cases front with
    | nil =>
        cases split
        exact Or.inl rfl
    | cons first front =>
        cases split
        obtain ⟨refused, others⟩ := List.forall_mem_cons.mp refuse
        exact Or.inr ⟨refused, front, back, rfl, others⟩
  · rintro (rfl | ⟨refused, front, back, rfl, others⟩)
    · exact ⟨[], ps, rfl, List.forall_mem_nil _⟩
    · exact ⟨p :: front, back, rfl, List.forall_mem_cons.mpr ⟨refused, others⟩⟩

theorem exists_tried_cons_iff {p : Parser α} (ends : Outcome (Parsed α) → Prop) :
    (∃ q, Tried (p :: ps) s q ∧ ends (q.run s)) ↔
      ends (p.run s) ∨ (Refuses p s ∧ ∃ q, Tried ps s q ∧ ends (q.run s)) := by
  simp only [tried_cons_iff]
  constructor
  · rintro ⟨q, rfl | ⟨refused, tried⟩, final⟩
    · exact Or.inl final
    · exact Or.inr ⟨refused, q, tried, final⟩
  · rintro (final | ⟨refused, q, tried, final⟩)
    · exact ⟨p, Or.inl rfl, final⟩
    · exact ⟨q, Or.inr ⟨refused, tried⟩, final⟩

theorem run_choice_eq_ok_iff {description : String} {r : Parsed α} :
    (choice description ps).run s = .ok r ↔ ∃ p, Tried ps s p ∧ p.run s = .ok r := by
  induction ps with
  | nil => simp [not_tried_nil]
  | cons p ps ih =>
      rw [choice_cons, run_orElse, Outcome.recover_eq_ok_iff, exists_tried_cons_iff (· = .ok r), ih]
      simp only [exists_and_right, Refuses]

theorem run_choice_eq_stalled_iff {description : String} :
    (choice description ps).run s = .stalled ↔ ∃ p, Tried ps s p ∧ p.run s = .stalled := by
  induction ps with
  | nil => simp [not_tried_nil]
  | cons p ps ih =>
      rw [choice_cons, run_orElse, Outcome.recover_eq_stalled_iff,
        exists_tried_cons_iff (· = .stalled), ih]
      simp only [exists_and_right, Refuses]

theorem kind_choice (description : String) (ps : List (Parser α)) :
    (choice description ps).kind = (ps.find? (·.kind != .never)).elim .never kind := by
  induction ps with
  | nil => rfl
  | cons p ps ih =>
      rw [choice_cons]
      cases p with
      | always value => rfl
      | never error => exact ih
      | step run => rfl

theorem choice_eq_always_iff {description : String} {value : α} :
    choice description ps = always value ↔
      ps.find? (·.kind != .never) = some (always value) := by
  induction ps with
  | nil => simp
  | cons p ps ih =>
      rw [choice_cons]
      cases p with
      | always first => simp [orElse, kind]
      | never error => exact ih
      | step run => simp [orElse, kind]

theorem choice_eq_never_iff {description : String} {error : Mismatch} :
    choice description ps = never error ↔
      error = ⟨description, "no match"⟩ ∧ ∀ p ∈ ps, p.kind = .never := by
  induction ps with
  | nil => simp [eq_comm]
  | cons p ps ih =>
      rw [choice_cons, List.forall_mem_cons]
      cases p with
      | always value => simp [orElse, kind]
      | never first => exact ih.trans (and_congr_right fun _ => (and_iff_right rfl).symm)
      | step run => simp [orElse, kind]

theorem choice_append (description : String) (xs ys : List (Parser α)) :
    choice description (xs ++ ys) = xs.foldr orElse (choice description ys) := List.foldr_append

/-- In front of another alternative a choice never gets to its own failure. -/
theorem choice_orElse (description : String) (ps : List (Parser α)) (q : Parser α) :
    (choice description ps).orElse q = ps.foldr orElse q := by
  induction ps with
  | nil => rfl
  | cons p ps ih => rw [choice_cons, orElse_assoc, ih, List.foldr_cons]

theorem choice_flatten (description inner : String) (xs ys zs : List (Parser α)) :
    choice description (xs ++ [choice inner ys] ++ zs) = choice description (xs ++ ys ++ zs) := by
  rw [List.append_assoc, List.append_assoc, choice_append, choice_append _ xs, choice_append _ ys,
    List.singleton_append, choice_cons, choice_orElse]

/-- A choice takes the first alternative that succeeds on its input, whatever those in front of it have
read or failed with. If all fail, it fails with nothing but its description, and so does a choice
without alternatives. In advance it is known as well as its first alternative that is not known to fail:
to succeed with the value of that one, or, if there is none, to fail. A choice among the alternatives may
be replaced by its own alternatives. -/
theorem choice_takes_first_match (description inner : String) (xs ys zs : List (Parser α))
    (s : List Char) :
    (∀ r, (choice description xs).run s = .ok r ↔ ∃ p, Tried xs s p ∧ p.run s = .ok r) ∧
    (∀ error, (choice description xs).run s = .fail error ↔
      error = ⟨description, "no match"⟩ ∧ ∀ p ∈ xs, Refuses p s) ∧
    ((choice description xs).run s = .stalled ↔ ∃ p, Tried xs s p ∧ p.run s = .stalled) ∧
    (choice description xs).kind = (xs.find? (·.kind != .never)).elim .never kind ∧
    (∀ value, choice description xs = always value ↔
      xs.find? (·.kind != .never) = some (always value)) ∧
    (∀ error, choice description xs = never error ↔
      error = ⟨description, "no match"⟩ ∧ ∀ p ∈ xs, p.kind = .never) ∧
    choice description (xs ++ [choice inner ys] ++ zs) = choice description (xs ++ ys ++ zs) :=
  ⟨fun _ => run_choice_eq_ok_iff, fun _ => run_choice_eq_fail_iff, run_choice_eq_stalled_iff,
    kind_choice description xs, fun _ => choice_eq_always_iff, fun _ => choice_eq_never_iff,
    choice_flatten description inner xs ys zs⟩

end Descent.Parser
