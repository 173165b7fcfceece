import Descent.Parser.Structure

/-!
A run repeats its element until the element fails. What a success leaves is always to be an end of the
text that it was given. An element that keeps to this and consumes on every success can succeed at most
once per character, so the input the run starts on is budget enough: each success pays one cell, and
one that cannot pay shows that the run would never end. Of an element that leaves anything else nothing
is said here.
-/

namespace Descent.Parser

variable {α β : Type}

/-- Adds to `found`, which is in reverse, all that `p` still reads. -/
def repeatFrom (p : Parser α) (budget : List Char) (found : List α) (input : List Char) :
    Outcome (Parsed (List α)) :=
  match p.run input with
  | .fail _ => .ok ⟨found.reverse, input⟩
  | .stalled => .stalled
  | .ok r =>
    match budget with
    | [] => .stalled
    | _ :: budget => repeatFrom p budget (r.value :: found) r.rest

def many (p : Parser α) : Parser (List α) :=
  step fun input => repeatFrom p input [] input

def many1 (p : Parser α) : Parser (List α) :=
  step fun input => (p.run input).bind fun r => repeatFrom p r.rest [r.value] r.rest

def sepBy1 (p : Parser α) (separator : Parser β) : Parser (List α) :=
  let following := separator.keepRight p
  p.bind fun first => (many following).map (first :: ·)

def sepBy (p : Parser α) (separator : Parser β) : Parser (List α) :=
  optional (sepBy1 p separator) []

theorem run_sepBy1 (p : Parser α) (separator : Parser β) (input : List Char) :
    (sepBy1 p separator).run input = (p.run input).bind fun r =>
      ((many (separator.keepRight p)).run r.rest).map (Parsed.map (r.value :: ·)) := by
  simp only [sepBy1, run_bind, run_map]

theorem run_sepBy (p : Parser α) (separator : Parser β) (input : List Char) :
    (sepBy p separator).run input =
      ((sepBy1 p separator).run input).recover fun _ => .ok ⟨[], input⟩ :=
  run_optional _ [] input

theorem run_many1 (p : Parser α) (input : List Char) :
    (many1 p).run input = (p.run input).bind fun r => repeatFrom p r.rest [r.value] r.rest := rfl

theorem repeatFrom_of_ok {p : Parser α} {input : List Char} {r : Parsed α}
    (ran : p.run input = .ok r) (cell : Char) (budget : List Char) (found : List α) :
    repeatFrom p (cell :: budget) found input = repeatFrom p budget (r.value :: found) r.rest := by
  rw [repeatFrom, ran]

theorem repeatFrom_of_fail {p : Parser α} {input : List Char} {error : Mismatch}
    (ran : p.run input = .fail error) (budget : List Char) (found : List α) :
    repeatFrom p budget found input = .ok ⟨found.reverse, input⟩ := by
  unfold repeatFrom
  rw [ran]

theorem repeatFrom_of_stalled {p : Parser α} {input : List Char} (ran : p.run input = .stalled)
    (budget : List Char) (found : List α) : repeatFrom p budget found input = .stalled := by
  unfold repeatFrom
  rw [ran]

theorem repeatFrom_found (p : Parser α) (budget : List Char) (found : List α)
    (input : List Char) :
    repeatFrom p budget found input =
      (repeatFrom p budget [] input).map (Parsed.map (found.reverse ++ ·)) := by
  induction budget generalizing found input with
  | nil =>
    unfold repeatFrom
    cases p.run input <;> simp [Outcome.map, Parsed.map]
  | cons cell budget ih =>
    unfold repeatFrom
    cases p.run input with
    | fail error => simp [Outcome.map, Parsed.map]
    | stalled => rfl
    | ok r =>
      simp only
      rw [ih, ih [r.value]]
      simp only [Outcome.map_map, Parsed.map, List.reverse_cons, List.append_assoc]
      rfl

/-- A budget that covers the input is as good as any other. -/
theorem repeatFrom_budget {p : Parser α}
    (consumes : ∀ s r, p.run s = .ok r → r.rest.length < s.length) {budget budget' s : List Char}
    (found : List α) (enough : s.length ≤ budget.length) (enough' : s.length ≤ budget'.length) :
    repeatFrom p budget found s = repeatFrom p budget' found s := by
  induction budget generalizing budget' found s with
  | nil =>
      obtain rfl : s = [] := List.eq_nil_of_length_eq_zero (Nat.le_zero.mp enough)
      cases ran : p.run [] with
      | ok r => exact absurd (consumes [] r ran) (Nat.not_lt_zero _)
      | fail error => rw [repeatFrom_of_fail ran, repeatFrom_of_fail ran]
      | stalled => rw [repeatFrom_of_stalled ran, repeatFrom_of_stalled ran]
  | cons cell budget ih =>
      cases ran : p.run s with
      | ok r =>
          have shorter := consumes s r ran
          cases budget' with
          | nil =>
              rw [List.length_nil] at enough'
              omega
          | cons cell' budget' =>
              rw [List.length_cons] at enough enough'
              rw [repeatFrom_of_ok ran, repeatFrom_of_ok ran]
              exact ih (r.value :: found) (by omega) (by omega)
      | fail error => rw [repeatFrom_of_fail ran, repeatFrom_of_fail ran]
      | stalled => rw [repeatFrom_of_stalled ran, repeatFrom_of_stalled ran]

end Descent.Parser
