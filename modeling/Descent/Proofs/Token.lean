import Mathlib.Data.List.DropRight
import Descent.Parser.Token
import Descent.Proofs.Progress

namespace Descent.Parser

theorem run_oneChar_cons (accepts : Char → Bool) (error : Char → Mismatch) (c : Char)
    (s : List Char) :
    (anyChar.satisfy accepts error).run (c :: s) =
      if accepts c then .ok ⟨c, s⟩ else .fail (error c) := by
  rw [run_satisfy, run_anyChar_cons]
  rfl

theorem run_oneChar_eq_ok_iff {accepts : Char → Bool} {error : Char → Mismatch} {s : List Char}
    {r : Parsed Char} :
    (anyChar.satisfy accepts error).run s = .ok r ↔
      s = r.value :: r.rest ∧ accepts r.value = true := by
  obtain ⟨value, rest⟩ := r
  cases s with
  | nil => simp [Outcome.bind]
  | cons c s =>
      rw [run_oneChar_cons]
      by_cases accepted : accepts c = true
      · rw [if_pos accepted]
        constructor
        · intro ok
          cases ok
          exact ⟨rfl, accepted⟩
        · rintro ⟨split, _⟩
          cases split
          rfl
      · rw [if_neg accepted]
        constructor
        · intro ok
          cases ok
        · rintro ⟨split, passed⟩
          cases split
          exact absurd passed accepted

theorem takes_oneChar (accepts : Char → Bool) (error : Char → Mismatch) :
    Takes 1 (anyChar.satisfy accepts error) := takes_anyChar.satisfy accepts error

theorem agree_oneChar (bound : Nat) (accepts : Char → Bool) (error : Char → Mismatch) :
    AgreeBelow bound (anyChar.satisfy accepts error) (anyChar.satisfy accepts error) :=
  AgreeBelow.satisfy takes_anyChar (agree_anyChar bound) accepts error

theorem takes_character (c : Char) : Takes 1 (character c) := takes_oneChar _ _

theorem agree_character (bound : Nat) (c : Char) : AgreeBelow bound (character c) (character c) :=
  agree_oneChar bound _ _

theorem takes_digit : Takes 1 digit := takes_oneChar _ _

theorem agree_digit (bound : Nat) : AgreeBelow bound digit digit := agree_oneChar bound _ _

theorem takes_whitespaceChar : Takes 1 whitespaceChar := takes_oneChar _ _

theorem agree_whitespace (bound : Nat) : AgreeBelow bound whitespace whitespace :=
  AgreeBelow.many takes_whitespaceChar (agree_oneChar bound _ _)

theorem repeatFrom_oneChar (accepts : Char → Bool) (error : Char → Mismatch)
    (budget found s : List Char) (enough : s.length ≤ budget.length) :
    repeatFrom (anyChar.satisfy accepts error) budget found s =
      .ok ⟨found.reverse ++ s.takeWhile accepts, s.dropWhile accepts⟩ := by
  induction s generalizing budget found with
  | nil =>
      unfold repeatFrom
      simp [Outcome.bind]
  | cons c s ih =>
      unfold repeatFrom
      rw [run_oneChar_cons]
      by_cases accepted : accepts c = true
      · cases budget with
        | nil => simp at enough
        | cons cell budget =>
            simp only [List.length_cons, Nat.add_le_add_iff_right] at enough
            simp only [if_pos accepted]
            rw [ih budget (c :: found) enough]
            simp [accepted]
      · simp [accepted]

theorem run_many_oneChar (accepts : Char → Bool) (error : Char → Mismatch) (s : List Char) :
    (many (anyChar.satisfy accepts error)).run s =
      .ok ⟨s.takeWhile accepts, s.dropWhile accepts⟩ :=
  repeatFrom_oneChar accepts error s [] s (Nat.le_refl _)

theorem run_whitespace (s : List Char) :
    whitespace.run s = .ok ⟨s.takeWhile isBlank, s.dropWhile isBlank⟩ :=
  run_many_oneChar isBlank _ s

@[simp] theorem run_skipWhitespace (s : List Char) :
    skipWhitespace.run s = .ok ⟨(), s.dropWhile isBlank⟩ := by
  rw [skipWhitespace, ignore, run_replace, run_whitespace]
  rfl

theorem run_character_cons (c : Char) (s : List Char) :
    (character c).run (c :: s) = .ok ⟨c, s⟩ := by
  rw [character, run_oneChar_cons, if_pos (beq_self_eq_true c)]

theorem run_character_other {c d : Char} (s : List Char) (differs : d ≠ c) :
    (character c).run (d :: s) = .fail ⟨c.toString, d.toString⟩ := by
  have refused : ¬(d == c) = true := fun same => differs (beq_iff_eq.mp same)
  rw [character, run_oneChar_cons, if_neg refused]

theorem run_character_eq_ok_iff {c : Char} {s : List Char} {r : Parsed Char} :
    (character c).run s = .ok r ↔ s = c :: r.rest ∧ r.value = c := by
  rw [character, run_oneChar_eq_ok_iff, beq_iff_eq]
  constructor
  · rintro ⟨split, rfl⟩
    exact ⟨split, rfl⟩
  · rintro ⟨split, rfl⟩
    exact ⟨split, rfl⟩

/-- A literal without the skip behind it. -/
theorem run_characters_eq_ok_iff {text s : List Char} {r : Parsed (List Char)} :
    (sequence (text.map character)).run s = .ok r ↔ s = text ++ r.rest ∧ r.value = text := by
  induction text generalizing s r with
  | nil =>
      obtain ⟨value, rest⟩ := r
      rw [List.map_nil, sequence_nil, run_always]
      constructor
      · intro ok
        cases ok
        exact ⟨rfl, rfl⟩
      · rintro ⟨rfl, rfl⟩
        rfl
  | cons c text ih =>
      rw [List.map_cons, sequence_cons, run_bind, Outcome.bind_eq_ok_iff]
      constructor
      · rintro ⟨q, first, later⟩
        rw [run_map, Outcome.map_eq_ok_iff] at later
        obtain ⟨t, later, rfl⟩ := later
        obtain ⟨front, value⟩ := run_character_eq_ok_iff.mp first
        obtain ⟨back, tail⟩ := ih.mp later
        exact ⟨by rw [front, back]; rfl, by rw [Parsed.map, value, tail]⟩
      · rintro ⟨rfl, value⟩
        refine ⟨⟨c, text ++ r.rest⟩, run_character_cons c _, ?_⟩
        rw [run_map, Outcome.map_eq_ok_iff]
        exact ⟨⟨text, r.rest⟩, ih.mpr ⟨rfl, rfl⟩, by rw [Parsed.map, ← value]⟩

theorem run_symbol_eq_ok_iff {text : String} {s : List Char} {r : Parsed String} :
    (symbol text).run s = .ok r ↔
      ∃ t, s = text.toList ++ t ∧ r = ⟨text, t.dropWhile isBlank⟩ := by
  simp only [symbol, literal, run_keepLeft, run_map, run_skipWhitespace, run_whitespace,
    Outcome.bind_eq_ok_iff, Outcome.map_eq_ok_iff]
  constructor
  · rintro ⟨_, ⟨_, ⟨q, read, rfl⟩, _, skipped, rfl⟩, _, again, rfl⟩
    obtain ⟨split, value⟩ := run_characters_eq_ok_iff.mp read
    cases skipped
    cases again
    refine ⟨q.rest, split, ?_⟩
    simp only [Parsed.map, value, String.ofList_toList, List.dropWhile_idempotent]
  · rintro ⟨t, rfl, rfl⟩
    refine ⟨_, ⟨_, ⟨⟨text.toList, t⟩, ?_, rfl⟩, _, rfl, rfl⟩, _, rfl, ?_⟩
    · exact run_characters_eq_ok_iff.mpr ⟨rfl, rfl⟩
    · simp only [Parsed.map, String.ofList_toList, List.dropWhile_idempotent]

theorem run_symbol (text : String) (t : List Char) :
    (symbol text).run (text.toList ++ t) = .ok ⟨text, t.dropWhile isBlank⟩ :=
  run_symbol_eq_ok_iff.mpr ⟨t, rfl, rfl⟩

theorem takes_skipWhitespace : Takes 0 skipWhitespace := takes_whitespaceChar.many.replace ()

theorem agree_skipWhitespace (bound : Nat) : AgreeBelow bound skipWhitespace skipWhitespace :=
  (agree_whitespace bound).replace ()

theorem takes_symbol (text : String) : Takes text.toList.length (symbol text) := by
  intro s r ok
  obtain ⟨t, split, rfl⟩ := run_symbol_eq_ok_iff.mp ok
  refine ⟨text.toList ++ t.takeWhile isBlank, ?_, ?_⟩
  · rw [List.append_assoc, List.takeWhile_append_dropWhile, split]
  · rw [List.length_append]
    exact Nat.le_add_right _ _

theorem agree_characters (bound : Nat) (text : List Char) :
    AgreeBelow bound (sequence (text.map character)) (sequence (text.map character)) := by
  induction text with
  | nil => exact agree_always bound []
  | cons c text ih =>
      exact AgreeBelow.sequence_cons (takes_character c) (agree_character bound c) ih

theorem takes_characters (text : List Char) :
    Takes text.length (sequence (text.map character)) := by
  intro s r ok
  exact ⟨text, (run_characters_eq_ok_iff.mp ok).1, Nat.le_refl _⟩

theorem takes_literal (text : String) : Takes text.toList.length (literal text) :=
  ((takes_characters text.toList).map String.ofList).keepLeft takes_skipWhitespace

theorem agree_literal (bound : Nat) (text : String) :
    AgreeBelow bound (literal text) (literal text) := by
  have letters : Takes text.toList.length
      ((sequence (text.toList.map character)).map String.ofList) :=
    (takes_characters text.toList).map String.ofList
  exact AgreeBelow.keepLeft letters ((agree_characters bound text.toList).map _)
    (agree_skipWhitespace bound)

theorem agree_symbol (bound : Nat) (text : String) :
    AgreeBelow bound (symbol text) (symbol text) :=
  AgreeBelow.keepLeft (takes_literal text) (agree_literal bound text) (agree_whitespace bound)

end Descent.Parser
