import Descent.Proofs.Failure

namespace Descent.Parser

variable {α : Type}

/-- From the first text on `p` succeeds with these values in a row, and leaves the second text. -/
inductive Row (p : Parser α) : List Char → List α → List Char → Prop
  | nil {s : List Char} : Row p s [] s
  | cons {s t : List Char} {r : Parsed α} {values : List α} (found : p.run s = .ok r)
      (rest : Row p r.rest values t) : Row p s (r.value :: values) t

/-- The same parser this many times, one behind the other. -/
def copies (count : Nat) (p : Parser α) : Parser (List α) := sequence (List.replicate count p)

/-- Up to `count` copies succeed on this text, and more do not. -/
def LongestRun (p : Parser α) (s : List Char) (count : Nat) : Prop :=
  (∀ k ≤ count, ∃ r, (copies k p).run s = .ok r) ∧ ∀ k > count, Refuses (copies k p) s

theorem run_copies_zero (p : Parser α) (s : List Char) : (copies 0 p).run s = .ok ⟨[], s⟩ := rfl

theorem run_copies_succ (count : Nat) (p : Parser α) (s : List Char) :
    (copies (count + 1) p).run s = (p.run s).bind fun r =>
      ((copies count p).run r.rest).map (Parsed.map (r.value :: ·)) :=
  run_sequence_cons p (List.replicate count p) s

theorem Row.run_copies_add {p : Parser α} {s t : List Char} {values : List α}
    (row : Row p s values t) (more : Nat) :
    (copies (values.length + more) p).run s =
      ((copies more p).run t).map (Parsed.map (values ++ ·)) := by
  induction row with
  | nil =>
      rw [List.length_nil, Nat.zero_add]
      exact (Outcome.map_id _).symm
  | @cons s t r values found rest ih =>
      have count : (r.value :: values).length + more = values.length + more + 1 := by
        rw [List.length_cons, Nat.add_right_comm]
      rw [count, run_copies_succ, found, Outcome.bind, ih, Outcome.map_map]
      rfl

theorem row_of_run_copies {p : Parser α} {count : Nat} {s : List Char} {r : Parsed (List α)}
    (ok : (copies count p).run s = .ok r) : Row p s r.value r.rest ∧ r.value.length = count := by
  induction count generalizing s r with
  | zero =>
      cases ok
      exact ⟨.nil, rfl⟩
  | succ count ih =>
      rw [run_copies_succ, Outcome.bind_eq_ok_iff] at ok
      obtain ⟨first, found, others⟩ := ok
      obtain ⟨q, later, rfl⟩ := Outcome.map_eq_ok_iff.mp others
      obtain ⟨row, length⟩ := ih later
      exact ⟨.cons found row, congrArg (· + 1) length⟩

theorem run_copies_eq_ok_iff {p : Parser α} {count : Nat} {s : List Char} {r : Parsed (List α)} :
    (copies count p).run s = .ok r ↔ Row p s r.value r.rest ∧ r.value.length = count := by
  constructor
  · exact row_of_run_copies
  · rintro ⟨row, rfl⟩
    have ran := row.run_copies_add 0
    rw [Nat.add_zero, run_copies_zero, Outcome.map, Parsed.map, List.append_nil] at ran
    exact ran

theorem Row.split {p : Parser α} {s t : List Char} {left right : List α}
    (row : Row p s (left ++ right) t) : ∃ u, Row p s left u ∧ Row p u right t := by
  induction left generalizing s with
  | nil => exact ⟨s, .nil, row⟩
  | cons a left ih =>
      cases row with
      | cons found rest =>
          obtain ⟨u, front, back⟩ := ih rest
          exact ⟨u, .cons found front, back⟩

theorem Row.run_copies_take {p : Parser α} {s t : List Char} {values : List α}
    (row : Row p s values t) {k : Nat} (within : k ≤ values.length) :
    ∃ u, (copies k p).run s = .ok ⟨values.take k, u⟩ := by
  rw [← List.take_append_drop k values] at row
  obtain ⟨u, front, _⟩ := row.split
  exact ⟨u, run_copies_eq_ok_iff.mpr ⟨front, List.length_take_of_le within⟩⟩

/-- One copy more than a row fails as the attempt behind the row does, and all larger numbers too. -/
theorem Row.run_copies_beyond {p : Parser α} {s t : List Char} {values : List α} {error : Mismatch}
    (row : Row p s values t) (stop : p.run t = .fail error) {k : Nat} (beyond : values.length < k) :
    (copies k p).run s = .fail error := by
  obtain ⟨more, rfl⟩ := Nat.exists_eq_add_of_lt beyond
  rw [Nat.add_assoc, row.run_copies_add, run_copies_succ, stop]
  rfl

theorem Row.longestRun {p : Parser α} {s t : List Char} {values : List α} (row : Row p s values t)
    (stop : Refuses p t) : LongestRun p s values.length := by
  obtain ⟨error, failed⟩ := stop
  refine ⟨fun k le => ?_, fun k more => ⟨error, row.run_copies_beyond failed more⟩⟩
  obtain ⟨u, ok⟩ := row.run_copies_take le
  exact ⟨_, ok⟩

theorem LongestRun.unique {p : Parser α} {s : List Char} {m n : Nat} (left : LongestRun p s m)
    (right : LongestRun p s n) : m = n := by
  have bound : ∀ {m n : Nat}, LongestRun p s m → LongestRun p s n → m ≤ n := by
    intro m n left right
    by_contra more
    obtain ⟨r, ok⟩ := left.1 m (Nat.le_refl m)
    obtain ⟨error, failed⟩ := right.2 m (Nat.lt_of_not_le more)
    rw [ok] at failed
    cases failed
  exact Nat.le_antisymm (bound left right) (bound right left)

theorem repeats_iff {p : Parser α} {s t : List Char} {values : List α} :
    Repeats p s values t ↔ Row p s values t ∧ Refuses p t := by
  constructor
  · intro loop
    refine ⟨?_, loop.refuses⟩
    induction loop with
    | done stop => exact .nil
    | more found loop ih => exact .cons found ih
  · rintro ⟨row, error, stop⟩
    induction row with
    | nil => exact .done stop
    | cons found rest ih => exact .more found (ih stop)

theorem run_many_eq_ok_iff {p : Parser α}
    (consumes : ∀ s r, p.run s = .ok r → r.rest.length < s.length) {s : List Char}
    {r : Parsed (List α)} :
    (many p).run s = .ok r ↔ Row p s r.value r.rest ∧ Refuses p r.rest := by
  rw [← repeats_iff]
  exact ⟨repeats_of_run_many, fun loop => loop.run_many consumes⟩

theorem exists_row_stalled_iff {p : Parser α} {s : List Char} :
    (∃ values t, Row p s values t ∧ p.run t = .stalled) ↔
      p.run s = .stalled ∨
        ∃ r, p.run s = .ok r ∧ ∃ values t, Row p r.rest values t ∧ p.run t = .stalled := by
  constructor
  · rintro ⟨values, t, row, endless⟩
    cases row with
    | nil => exact Or.inl endless
    | cons found rest => exact Or.inr ⟨_, found, _, t, rest, endless⟩
  · rintro (endless | ⟨r, found, values, t, row, endless⟩)
    · exact ⟨[], s, .nil, endless⟩
    · exact ⟨r.value :: values, t, .cons found row, endless⟩

theorem repeatFrom_eq_stalled_iff {p : Parser α}
    (consumes : ∀ s r, p.run s = .ok r → r.rest.length < s.length) {budget s : List Char}
    (found : List α) (enough : s.length ≤ budget.length) :
    repeatFrom p budget found s = .stalled ↔
      ∃ values t, Row p s values t ∧ p.run t = .stalled := by
  induction budget generalizing found s with
  | nil =>
      rw [exists_row_stalled_iff]
      unfold repeatFrom
      cases ran : p.run s with
      | fail error => simp
      | stalled => simp
      | ok r =>
          have shorter := consumes s r ran
          simp only [List.length_nil, Nat.le_zero] at enough
          omega
  | cons cell budget ih =>
      rw [exists_row_stalled_iff]
      unfold repeatFrom
      cases ran : p.run s with
      | fail error => simp
      | stalled => simp
      | ok r =>
          have shorter := consumes s r ran
          simp only [List.length_cons] at enough
          simpa using ih (r.value :: found) (by omega)

theorem run_many_eq_stalled_iff {p : Parser α}
    (consumes : ∀ s r, p.run s = .ok r → r.rest.length < s.length) {s : List Char} :
    (many p).run s = .stalled ↔ ∃ values t, Row p s values t ∧ p.run t = .stalled :=
  repeatFrom_eq_stalled_iff consumes [] (Nat.le_refl _)

/-- A repetition reads the longest run of its element. It never fails, and it ends unless an attempt of
the element has no end. There is exactly one number of copies up to which copies of the element succeed;
the repetition has the values and the rest of that many, and all larger numbers fail as the element
fails on that rest. -/
theorem many_eq_longest_run {p : Parser α}
    (consumes : ∀ s r, p.run s = .ok r → r.rest.length < s.length) (s : List Char) :
    (∀ error, (many p).run s ≠ .fail error) ∧
    ((many p).run s = .stalled ↔
      ∃ k r, (copies k p).run s = .ok r ∧ p.run r.rest = .stalled) ∧
    ((many p).run s ≠ .stalled → ∃ n r error, n ≤ s.length ∧ (∀ m, LongestRun p s m ↔ m = n) ∧
      (many p).run s = .ok r ∧ (copies n p).run s = .ok r ∧ r.value.length = n ∧
      (∀ k ≤ n, ∃ t, (copies k p).run s = .ok ⟨r.value.take k, t⟩) ∧
      p.run r.rest = .fail error ∧ ∀ k > n, (copies k p).run s = .fail error) := by
  refine ⟨many_ne_fail p s, ?_, ?_⟩
  · rw [run_many_eq_stalled_iff consumes]
    constructor
    · rintro ⟨values, t, row, endless⟩
      exact ⟨values.length, ⟨values, t⟩, run_copies_eq_ok_iff.mpr ⟨row, rfl⟩, endless⟩
    · rintro ⟨k, r, ok, endless⟩
      exact ⟨r.value, r.rest, (run_copies_eq_ok_iff.mp ok).1, endless⟩
  · intro ends
    obtain ⟨r, ran⟩ := Outcome.exists_eq_ok (many_ne_fail p s) ends
    obtain ⟨row, error, stop⟩ := (run_many_eq_ok_iff consumes).mp ran
    have count := (repeats_iff.mpr ⟨row, error, stop⟩).length_le consumes
    have longest := row.longestRun ⟨error, stop⟩
    refine ⟨r.value.length, r, error, by omega, fun m => ⟨fun other => other.unique longest, ?_⟩,
      ran, run_copies_eq_ok_iff.mpr ⟨row, rfl⟩, rfl, fun k le => row.run_copies_take le, stop,
      fun k more => row.run_copies_beyond stop more⟩
    rintro rfl
    exact longest

theorem many_eq_longest_run_of_pairs :
    let p := (character 'a').keepRight digit
    let s := "a1a2ax".toList
    (∀ s r, p.run s = .ok r → r.rest.length < s.length) ∧
      (many p).run s = .ok ⟨['1', '2'], "ax".toList⟩ ∧ (∀ m, LongestRun p s m ↔ m = 2) ∧
      ∀ k > 2, (copies k p).run s = .fail ⟨"digit", "x"⟩ := by
  intro p s
  have consumes : ∀ s r, p.run s = .ok r → r.rest.length < s.length :=
    ((takes_character 'a').keepRight takes_digit.zero).consumes
  have ran : (many p).run s = .ok ⟨['1', '2'], "ax".toList⟩ := rfl
  have ends : (many p).run s ≠ .stalled := by
    rw [ran]
    exact fun endless => nomatch endless
  obtain ⟨n, r, error, _, longest, same, _, rfl, _, stop, beyond⟩ :=
    (many_eq_longest_run consumes s).2.2 ends
  obtain rfl : ⟨['1', '2'], "ax".toList⟩ = r := Outcome.ok.inj (ran.symm.trans same)
  obtain rfl : ⟨"digit", "x"⟩ = error := Outcome.fail.inj stop
  exact ⟨consumes, ran, longest, beyond⟩

end Descent.Parser
