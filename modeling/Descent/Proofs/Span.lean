import Descent.Proofs.Algebra
import Descent.Proofs.Token

namespace Descent.Parser

variable {accepts : Char → Bool} {error : Char → Mismatch} {s front rest : List Char}

/-- The text in two parts, of which the first is its longest front that passes the test. -/
structure Span (accepts : Char → Bool) (s front rest : List Char) : Prop where
  split : s = front ++ rest
  passes : ∀ c ∈ front, accepts c = true
  longest : ∀ other, other <+: s → (∀ c ∈ other, accepts c = true) → other <+: front

theorem span_takeWhile (accepts : Char → Bool) (s : List Char) :
    Span accepts s (s.takeWhile accepts) (s.dropWhile accepts) := by
  constructor
  · exact List.takeWhile_append_dropWhile.symm
  · exact fun c => List.mem_takeWhile_imp
  · intro other isFront passes
    obtain ⟨t, rfl⟩ := isFront
    rw [List.takeWhile_append_of_pos passes]
    exact List.prefix_append other _

theorem span_iff :
    Span accepts s front rest ↔ front = s.takeWhile accepts ∧ rest = s.dropWhile accepts := by
  have taken := span_takeWhile accepts s
  constructor
  · intro span
    have shorter := taken.longest front ⟨rest, span.split.symm⟩ span.passes
    have longer := span.longest _ ⟨_, taken.split.symm⟩ taken.passes
    have same : front = s.takeWhile accepts :=
      shorter.eq_of_length (Nat.le_antisymm shorter.length_le longer.length_le)
    have parts := span.split.symm.trans taken.split
    rw [same] at parts
    exact ⟨same, List.append_cancel_left parts⟩
  · intro parts
    rw [parts.1, parts.2]
    exact taken

theorem run_many_oneChar_eq_ok_iff {r : Parsed (List Char)} :
    (many (anyChar.satisfy accepts error)).run s = .ok r ↔ Span accepts s r.value r.rest := by
  rw [run_many_oneChar, span_iff, Outcome.ok.injEq]
  constructor
  · rintro rfl
    exact ⟨rfl, rfl⟩
  · rintro ⟨front, rest⟩
    rw [← front, ← rest]

theorem run_many1_oneChar_nil (accepts : Char → Bool) (error : Char → Mismatch) :
    (many1 (anyChar.satisfy accepts error)).run [] = .fail ⟨"any character", "end of input"⟩ := rfl

theorem run_many1_oneChar_of_accepts {c : Char} (accepted : accepts c = true)
    (error : Char → Mismatch) (t : List Char) :
    (many1 (anyChar.satisfy accepts error)).run (c :: t) =
      (many (anyChar.satisfy accepts error)).run (c :: t) := by
  rw [run_many1, run_oneChar_cons, if_pos accepted, run_many_oneChar, Outcome.bind,
    repeatFrom_oneChar accepts error t [c] t (Nat.le_refl _), List.takeWhile_cons_of_pos accepted,
    List.dropWhile_cons_of_pos accepted]
  rfl

theorem run_many1_oneChar_of_refuses {c : Char} (refused : accepts c = false)
    (error : Char → Mismatch) (t : List Char) :
    (many1 (anyChar.satisfy accepts error)).run (c :: t) = .fail (error c) := by
  rw [run_many1, run_oneChar_cons, refused]
  rfl

theorem Span.nil_of_refuses {c : Char} {t : List Char} (span : Span accepts (c :: t) front rest)
    (refused : accepts c = false) : front = [] := by
  rw [(span_iff.mp span).1, List.takeWhile_cons_of_neg (Bool.eq_false_iff.mp refused)]

theorem Span.ne_nil_of_accepts {c : Char} {t : List Char} (span : Span accepts (c :: t) front rest)
    (accepted : accepts c = true) : front ≠ [] := by
  rw [(span_iff.mp span).1, List.takeWhile_cons_of_pos accepted]
  exact List.cons_ne_nil c _

theorem run_many1_oneChar_eq_ok_iff {r : Parsed (List Char)} :
    (many1 (anyChar.satisfy accepts error)).run s = .ok r ↔
      r.value ≠ [] ∧ Span accepts s r.value r.rest := by
  cases s with
  | nil =>
      rw [run_many1_oneChar_nil]
      constructor
      · intro ok
        cases ok
      · rintro ⟨nonempty, span⟩
        exact absurd (span_iff.mp span).1 nonempty
  | cons c t =>
      cases accepted : accepts c with
      | true =>
          rw [run_many1_oneChar_of_accepts accepted, run_many_oneChar_eq_ok_iff]
          exact (and_iff_right_of_imp fun span => span.ne_nil_of_accepts accepted).symm
      | false =>
          rw [run_many1_oneChar_of_refuses accepted]
          constructor
          · intro ok
            cases ok
          · rintro ⟨nonempty, span⟩
            exact absurd (span.nil_of_refuses accepted) nonempty

theorem run_many1_oneChar_eq_fail_iff {mismatch : Mismatch} :
    (many1 (anyChar.satisfy accepts error)).run s = .fail mismatch ↔
      s = [] ∧ mismatch = ⟨"any character", "end of input"⟩ ∨
        ∃ c t, s = c :: t ∧ accepts c = false ∧ mismatch = error c := by
  cases s with
  | nil =>
      rw [run_many1_oneChar_nil, Outcome.fail.injEq, eq_comm]
      constructor
      · exact fun ended => Or.inl ⟨rfl, ended⟩
      · intro reported
        rcases reported with ⟨_, ended⟩ | ⟨c, t, impossible, _⟩
        · exact ended
        · cases impossible
  | cons c t =>
      cases accepted : accepts c with
      | true =>
          rw [run_many1_oneChar_of_accepts accepted, run_many_oneChar]
          constructor
          · intro failed
            cases failed
          · intro reported
            rcases reported with ⟨impossible, _⟩ | ⟨d, u, same, refused, _⟩
            · cases impossible
            · cases same
              cases accepted.symm.trans refused
      | false =>
          rw [run_many1_oneChar_of_refuses accepted, Outcome.fail.injEq, eq_comm]
          constructor
          · exact fun refused => Or.inr ⟨c, t, rfl, accepted, refused⟩
          · intro reported
            rcases reported with ⟨impossible, _⟩ | ⟨d, u, same, _, refused⟩
            · cases impossible
            · cases same
              exact refused

theorem run_many1_oneChar_ne_stalled (accepts : Char → Bool) (error : Char → Mismatch)
    (s : List Char) : (many1 (anyChar.satisfy accepts error)).run s ≠ .stalled := by
  cases s with
  | nil => exact fun endless => nomatch endless
  | cons c t =>
      cases accepted : accepts c with
      | true =>
          rw [run_many1_oneChar_of_accepts accepted, run_many_oneChar]
          exact fun endless => nomatch endless
      | false =>
          rw [run_many1_oneChar_of_refuses accepted]
          exact fun endless => nomatch endless

theorem run_skipWhitespace_eq_ok_iff {r : Parsed Unit} :
    skipWhitespace.run s = .ok r ↔ ∃ blanks, Span isBlank s blanks r.rest := by
  simp only [run_skipWhitespace, span_iff, Outcome.ok.injEq]
  constructor
  · rintro rfl
    exact ⟨_, rfl, rfl⟩
  · rintro ⟨_, rfl, rest⟩
    rw [← rest]

theorem takeWhile_dropWhile (accepts : Char → Bool) (s : List Char) :
    (s.dropWhile accepts).takeWhile accepts = [] := by
  have again := span_takeWhile accepts (s.dropWhile accepts)
  have split := again.split
  rw [List.dropWhile_idempotent] at split
  exact List.append_left_eq_self.mp split.symm

theorem whitespace_pair_whitespace :
    whitespace.pair whitespace = whitespace.map fun blanks => (blanks, []) := by
  apply eq_iff_kind_run.mpr
  constructor
  · rfl
  · intro s
    simp only [run_pair, run_map, run_whitespace, Outcome.bind, Outcome.map, Parsed.map,
      takeWhile_dropWhile, List.dropWhile_idempotent]

theorem skipWhitespace_keepRight_skipWhitespace :
    skipWhitespace.keepRight skipWhitespace = skipWhitespace := by
  apply eq_iff_kind_run.mpr
  constructor
  · rfl
  · intro s
    simp only [run_keepRight, run_skipWhitespace, Outcome.bind, List.dropWhile_idempotent]

/-- Repeating a test on one character always ends well. It takes the longest front that passes the test,
in order, and leaves exactly what follows. Asked for at least one character, it takes the same where
there is one; otherwise it fails at the end of the text, or on the first character with the report that
the test has for it. Whitespace is the longest front of blanks, whether it is kept or skipped, and once
it is gone there is none. -/
theorem many_oneChar_takes_span (accepts : Char → Bool) (error : Char → Mismatch) (s : List Char) :
    let one := anyChar.satisfy accepts error
    (∃ r, (many one).run s = .ok r) ∧
    (∀ r, (many one).run s = .ok r ↔ Span accepts s r.value r.rest) ∧
    (∀ r, (many1 one).run s = .ok r ↔ r.value ≠ [] ∧ Span accepts s r.value r.rest) ∧
    (∀ mismatch, (many1 one).run s = .fail mismatch ↔
      s = [] ∧ mismatch = ⟨"any character", "end of input"⟩ ∨
        ∃ c t, s = c :: t ∧ accepts c = false ∧ mismatch = error c) ∧
    (many1 one).run s ≠ .stalled ∧
    (∃ r, whitespace.run s = .ok r) ∧
    (∀ r, whitespace.run s = .ok r ↔ Span isBlank s r.value r.rest) ∧
    (∃ r, skipWhitespace.run s = .ok r) ∧
    (∀ r, skipWhitespace.run s = .ok r ↔ ∃ blanks, Span isBlank s blanks r.rest) ∧
    whitespace.pair whitespace = (whitespace.map fun blanks => (blanks, [])) ∧
    skipWhitespace.keepRight skipWhitespace = skipWhitespace := by
  intro one
  exact ⟨⟨_, run_many_oneChar accepts error s⟩, fun r => run_many_oneChar_eq_ok_iff,
    fun r => run_many1_oneChar_eq_ok_iff, fun mismatch => run_many1_oneChar_eq_fail_iff,
    run_many1_oneChar_ne_stalled accepts error s, ⟨_, run_whitespace s⟩,
    fun r => run_many_oneChar_eq_ok_iff, ⟨_, run_skipWhitespace s⟩,
    fun r => run_skipWhitespace_eq_ok_iff,
    whitespace_pair_whitespace, skipWhitespace_keepRight_skipWhitespace⟩

example : (many digit).run "10x2".toList = .ok ⟨['1', '0'], ['x', '2']⟩ := rfl

end Descent.Parser
