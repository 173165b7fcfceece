import Descent.Parser.Repeat

namespace Descent.Parser

variable {α : Type}

/-- From the first text the loop over `p` finds the values and leaves the second text. -/
inductive Repeats (p : Parser α) : List Char → List α → List Char → Prop
  | done {s : List Char} {error : Mismatch} (stop : p.run s = .fail error) : Repeats p s [] s
  | more {s t : List Char} {r : Parsed α} {values : List α} (found : p.run s = .ok r)
      (rest : Repeats p r.rest values t) : Repeats p s (r.value :: values) t

theorem repeats_of_repeatFrom {p : Parser α} {budget : List Char} {found : List α}
    {s : List Char} {r : Parsed (List α)} (ok : repeatFrom p budget found s = .ok r) :
    ∃ values, Repeats p s values r.rest ∧ r.value = found.reverse ++ values ∧
      values.length ≤ budget.length := by
  induction budget generalizing found s with
  | nil =>
      unfold repeatFrom at ok
      cases h : p.run s with
      | ok q => simp [h] at ok
      | stalled => simp [h] at ok
      | fail error =>
          simp only [h] at ok
          cases ok
          exact ⟨[], .done h, (List.append_nil _).symm, Nat.le_refl 0⟩
  | cons cell budget ih =>
      unfold repeatFrom at ok
      cases h : p.run s with
      | stalled => simp [h] at ok
      | fail error =>
          simp only [h] at ok
          cases ok
          exact ⟨[], .done h, (List.append_nil _).symm, Nat.zero_le _⟩
      | ok q =>
          simp only [h] at ok
          obtain ⟨values, loop, shape, count⟩ := ih ok
          refine ⟨q.value :: values, .more h loop, ?_, Nat.succ_le_succ count⟩
          rw [shape, List.reverse_cons, List.append_assoc]
          rfl

theorem repeatFrom_of_repeats {p : Parser α} {budget : List Char} {s t : List Char}
    {values : List α} (loop : Repeats p s values t) (found : List α)
    (count : values.length ≤ budget.length) :
    repeatFrom p budget found s = .ok ⟨found.reverse ++ values, t⟩ := by
  induction loop generalizing budget found with
  | done stop => rw [repeatFrom_of_fail stop, List.append_nil]
  | more step loop ih =>
      cases budget with
      | nil => exact absurd count (Nat.not_succ_le_zero _)
      | cons cell budget =>
          rw [repeatFrom_of_ok step, ih _ (Nat.le_of_succ_le_succ count), List.reverse_cons,
            List.append_assoc]
          rfl

/-- Each success leaves less, so there are no more values than characters gone. -/
theorem Repeats.length_le {p : Parser α} {s t : List Char} {values : List α}
    (consumes : ∀ s r, p.run s = .ok r → r.rest.length < s.length) (loop : Repeats p s values t) :
    values.length + t.length ≤ s.length := by
  induction loop with
  | done stop => simp
  | more found loop ih =>
      have less := consumes _ _ found
      rw [List.length_cons]
      omega

theorem repeats_of_run_many {p : Parser α} {s : List Char} {r : Parsed (List α)}
    (ok : (many p).run s = .ok r) : Repeats p s r.value r.rest := by
  rw [many, run_step] at ok
  obtain ⟨values, loop, shape, _⟩ := repeats_of_repeatFrom ok
  rw [shape]
  exact loop

theorem Repeats.run_many {p : Parser α} {s t : List Char} {values : List α}
    (consumes : ∀ s r, p.run s = .ok r → r.rest.length < s.length) (loop : Repeats p s values t) :
    (many p).run s = .ok ⟨values, t⟩ := by
  have count := loop.length_le consumes
  rw [many, run_step, repeatFrom_of_repeats loop [] (by omega)]
  rfl

end Descent.Parser
