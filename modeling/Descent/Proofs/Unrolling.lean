import Descent.Proofs.Failure
import Descent.Proofs.Pairing

namespace Descent.Parser

variable {α β : Type}

theorem run_many_of_ok {p : Parser α}
    (consumes : ∀ s r, p.run s = .ok r → r.rest.length < s.length) {s : List Char} {r : Parsed α}
    (ran : p.run s = .ok r) : (many p).run s = repeatFrom p r.rest [r.value] r.rest := by
  have shorter := consumes s r ran
  cases s with
  | nil => exact absurd shorter (Nat.not_lt_zero _)
  | cons cell budget =>
      rw [many, run_step, repeatFrom_of_ok ran]
      exact repeatFrom_budget consumes [r.value] (Nat.le_of_lt_succ shorter) (Nat.le_refl _)

/-- The first round of a loop may be carried out in front of it. -/
theorem run_many_eq_optional {p : Parser α}
    (consumes : ∀ s r, p.run s = .ok r → r.rest.length < s.length) :
    (many p).run = (optional (many1 p) []).run := by
  funext s
  rw [run_optional, run_many1]
  cases ran : p.run s with
  | ok r =>
      rw [run_many_of_ok consumes ran, Outcome.bind]
      cases later : repeatFrom p r.rest [r.value] r.rest with
      | ok q => rfl
      | fail error => exact absurd later (repeatFrom_ne_fail p _ _ _ error)
      | stalled => rfl
  | fail error => exact repeatFrom_of_fail ran s []
  | stalled => exact repeatFrom_of_stalled ran s []

theorem run_many_unrolled {p : Parser α}
    (consumes : ∀ s r, p.run s = .ok r → r.rest.length < s.length) :
    (many p).run = ((p.bind fun x => (many p).map (x :: ·)).orElse (always [])).run := by
  rw [run_many_eq_optional consumes]
  exact orElse_congr (run_many1_eq_bind p) rfl

theorem run_many1_eq_fail_iff {p : Parser α} {s : List Char} {error : Mismatch} :
    (many1 p).run s = .fail error ↔ p.run s = .fail error := by
  rw [run_many1, Outcome.bind_eq_fail_iff]
  exact or_iff_left fun ⟨r, _, failed⟩ => repeatFrom_ne_fail p _ _ _ error failed

theorem run_sepBy_always {p : Parser α}
    (consumes : ∀ s r, p.run s = .ok r → r.rest.length < s.length) (u : β) :
    (sepBy p (always u)).run = (many p).run :=
  (run_many_unrolled consumes).symm

theorem run_sepBy_never (p : Parser α) (error : Mismatch) :
    (sepBy p (never error : Parser β)).run = (optional (p.map fun x => [x]) []).run := by
  refine orElse_congr ?_ rfl
  have none : (many ((never error : Parser β).keepRight p)).run = (always []).run := by
    funext t
    exact repeatFrom_of_fail (run_never error t) t []
  rw [map_eq_bind]
  exact bind_congr rfl fun x => map_congr none (x :: ·)

/-- The repetitions agree with each other in values, rests and failures. If its element consumes on every
success, a repetition is the same as an optional one of at least one, as what it unrolls to, and as a
list with a separator that reads nothing. Whatever the element does, a repetition of at least one is an
element with a repetition behind it and fails as that element does, a list with a separator that never
succeeds is an optional element, and a list of at least one is an element with a repetition of separators
and elements behind it. -/
theorem repetitions_agree (p : Parser α) (separator : Parser β) (u : β) (error : Mismatch) :
    ((∀ s r, p.run s = .ok r → r.rest.length < s.length) →
      (many p).run = (optional (many1 p) []).run ∧
      (many p).run = ((p.bind fun x => (many p).map (x :: ·)).orElse (always [])).run ∧
      (sepBy p (always u)).run = (many p).run) ∧
    (many1 p).run = ((p.pair (many p)).map fun both => both.1 :: both.2).run ∧
    (∀ s first, (many1 p).run s = .fail first ↔ p.run s = .fail first) ∧
    (sepBy p (never error : Parser β)).run = (optional (p.map fun x => [x]) []).run ∧
    sepBy1 p separator =
      (p.pair (many (separator.keepRight p))).map fun both => both.1 :: both.2 := by
  refine ⟨fun consumes => ⟨run_many_eq_optional consumes, run_many_unrolled consumes,
    run_sepBy_always consumes u⟩, ?_, fun s first => run_many1_eq_fail_iff, run_sepBy_never p error,
    (pair_map p _ List.cons).symm⟩
  rw [pair_map p (many p) List.cons]
  exact run_many1_eq_bind p

theorem repetitions_agree_of_pairs :
    let p := (character 'a').keepRight digit
    let s := "a1a2ax".toList
    (∀ s r, p.run s = .ok r → r.rest.length < s.length) ∧
      (many p).run s = .ok ⟨['1', '2'], "ax".toList⟩ ∧
      (optional (many1 p) []).run s = .ok ⟨['1', '2'], "ax".toList⟩ ∧
      (sepBy p (always 'b')).run s = .ok ⟨['1', '2'], "ax".toList⟩ ∧
      (optional (p.map fun x => [x]) []).run s = .ok ⟨['1'], "a2ax".toList⟩ ∧
      (many1 p).run "ax".toList = .fail ⟨"digit", "x"⟩ := by
  intro p s
  have consumes : ∀ s r, p.run s = .ok r → r.rest.length < s.length :=
    ((takes_character 'a').keepRight takes_digit.zero).consumes
  have ran : (many p).run s = .ok ⟨['1', '2'], "ax".toList⟩ := rfl
  have missed : p.run "ax".toList = .fail ⟨"digit", "x"⟩ := rfl
  have single : (sepBy p (never ⟨"", ""⟩ : Parser Char)).run s = .ok ⟨['1'], "a2ax".toList⟩ := rfl
  obtain ⟨loops, _, failures, optional, _⟩ := repetitions_agree p digit 'b' ⟨"", ""⟩
  obtain ⟨unrolled, _, separated⟩ := loops consumes
  rw [unrolled] at ran
  rw [optional] at single
  refine ⟨consumes, ?_, ran, ?_, single, (failures _ _).mpr missed⟩
  · rw [unrolled, ran]
  · rw [separated, unrolled, ran]

end Descent.Parser
