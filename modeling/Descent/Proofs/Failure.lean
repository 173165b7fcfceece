import Descent.Proofs.Congruence
import Descent.Proofs.Token

namespace Descent.Parser

variable {α β γ : Type}

theorem run_choice_eq_fail_iff {description : String} {alternatives : List (Parser α)}
    {s : List Char} {error : Mismatch} :
    (choice description alternatives).run s = .fail error ↔
      error = ⟨description, "no match"⟩ ∧ ∀ p ∈ alternatives, Refuses p s := by
  induction alternatives with
  | nil =>
      rw [choice_nil, run_never, Outcome.fail.injEq, eq_comm]
      exact (and_iff_left (List.forall_mem_nil _)).symm
  | cons p alternatives ih =>
      rw [choice_cons, run_orElse, Outcome.recover_eq_fail_iff, List.forall_mem_cons]
      constructor
      · rintro ⟨first, failed, others⟩
        obtain ⟨known, refuse⟩ := ih.mp others
        exact ⟨known, ⟨first, failed⟩, refuse⟩
      · rintro ⟨known, ⟨first, failed⟩, refuse⟩
        exact ⟨first, failed, ih.mpr ⟨known, refuse⟩⟩

theorem repeatFrom_ne_fail (p : Parser α) (budget : List Char) (found : List α) (s : List Char)
    (error : Mismatch) : repeatFrom p budget found s ≠ .fail error := by
  induction budget generalizing found s with
  | nil =>
      unfold repeatFrom
      cases p.run s <;> simp
  | cons cell budget ih =>
      unfold repeatFrom
      cases p.run s with
      | ok r => exact ih (r.value :: found) r.rest
      | fail first => simp
      | stalled => simp

theorem many_ne_fail (p : Parser α) (s : List Char) (error : Mismatch) :
    (many p).run s ≠ .fail error := repeatFrom_ne_fail p s [] s error

theorem Repeats.refuses {p : Parser α} {s t : List Char} {values : List α}
    (loop : Repeats p s values t) : Refuses p t := by
  induction loop with
  | done stop => exact ⟨_, stop⟩
  | more found loop ih => exact ih

theorem optional_ne_fail (p : Parser α) (default : α) (s : List Char) (error : Mismatch) :
    (p.optional default).run s ≠ .fail error := by
  rw [run_optional, ne_eq, Outcome.recover_eq_fail_iff]
  rintro ⟨first, failed, impossible⟩
  cases impossible

theorem exists_run_of_certain {p : Parser α} (ends : ∀ bound, AgreeBelow bound p p)
    (certain : ∀ s error, p.run s ≠ .fail error) (s : List Char) : ∃ r, p.run s = .ok r :=
  Outcome.exists_eq_ok (certain s) (ends (s.length + 1) s (Nat.lt_succ_self _)).2

theorem sepBy_ne_fail (p : Parser α) (separator : Parser β) (s : List Char) (error : Mismatch) :
    (sepBy p separator).run s ≠ .fail error := optional_ne_fail _ _ s error

/-- What asking for a character in front of a text fails with. -/
inductive Misses (expected : Char) : List Char → Mismatch → Prop
  | ended : Misses expected [] ⟨"any character", "end of input"⟩
  | other {c : Char} {s : List Char} (differs : c ≠ expected) :
      Misses expected (c :: s) ⟨expected.toString, c.toString⟩

theorem run_character_eq_fail_iff {c : Char} {s : List Char} {error : Mismatch} :
    (character c).run s = .fail error ↔ Misses c s error := by
  constructor
  · intro failed
    cases s with
    | nil =>
        cases failed
        exact .ended
    | cons d s =>
        by_cases same : d = c
        · rw [same, run_character_cons] at failed
          cases failed
        · rw [run_character_other s same] at failed
          cases failed
          exact .other same
  · intro misses
    cases misses with
    | ended => rfl
    | other differs => exact run_character_other _ differs

theorem exists_misses {expected : Char} {s : List Char} (other : ∀ c ∈ s.head?, c ≠ expected) :
    ∃ error, Misses expected s error := by
  cases s with
  | nil => exact ⟨_, .ended⟩
  | cons c s => exact ⟨_, .other (other c rfl)⟩

theorem character_refuses {expected : Char} {s : List Char}
    (other : ∀ c ∈ s.head?, c ≠ expected) : Refuses (character expected) s := by
  obtain ⟨error, misses⟩ := exists_misses other
  exact ⟨error, run_character_eq_fail_iff.mpr misses⟩

/-- What is reported where a digit is asked for and there is none. -/
def digitMismatch : List Char → Mismatch
  | [] => ⟨"any character", "end of input"⟩
  | c :: _ => ⟨"digit", c.toString⟩

theorem run_digit_eq_fail_iff {s : List Char} {error : Mismatch} :
    digit.run s = .fail error ↔
      error = digitMismatch s ∧ ∀ c ∈ s.head?, c.isDigit = false := by
  cases s with
  | nil =>
      rw [digit, run_satisfy, run_anyChar_nil, Outcome.bind, Outcome.fail.injEq, eq_comm]
      refine (and_iff_left fun c first => ?_).symm
      cases first
  | cons c s =>
      rw [digit, run_oneChar_cons]
      by_cases accepted : c.isDigit = true
      · simp [accepted]
      · rw [if_neg accepted, Outcome.fail.injEq, eq_comm]
        refine (and_iff_left fun d first => ?_).symm
        cases first
        exact Bool.eq_false_iff.mpr accepted

theorem run_keepLeft_eq_fail_iff {p : Parser α} {q : Parser β}
    (certain : ∀ s error, q.run s ≠ .fail error) {s : List Char} {error : Mismatch} :
    (p.keepLeft q).run s = .fail error ↔ p.run s = .fail error := by
  simp only [run_keepLeft, Outcome.bind_eq_fail_iff, Outcome.map_eq_fail_iff, certain, and_false,
    exists_false, or_false]

theorem skipWhitespace_ne_fail (s : List Char) (error : Mismatch) :
    skipWhitespace.run s ≠ .fail error := by
  intro failed
  rw [run_skipWhitespace] at failed
  cases failed

/-- Nothing behind the letters of a symbol fails. -/
theorem run_symbol_eq_fail_iff {text : String} {s : List Char} {error : Mismatch} :
    (symbol text).run s = .fail error ↔
      (sequence (text.toList.map character)).run s = .fail error := by
  rw [symbol, whitespace, run_keepLeft_eq_fail_iff (many_ne_fail whitespaceChar), literal,
    run_keepLeft_eq_fail_iff skipWhitespace_ne_fail, run_map, Outcome.map_eq_fail_iff]

theorem symbol_refuses {text : String} {expected : Char} {letters s : List Char}
    (front : text.toList = expected :: letters) (other : ∀ c ∈ s.head?, c ≠ expected) :
    Refuses (symbol text) s := by
  simp only [Refuses, run_symbol_eq_fail_iff, front, List.map_cons, sequence_cons]
  exact (character_refuses other).bind _

theorem run_mark_eq_fail_iff {text : String} {c : Char} (single : text.toList = [c])
    {s : List Char} {error : Mismatch} :
    (symbol text).run s = .fail error ↔ Misses c s error := by
  rw [run_symbol_eq_fail_iff, single, ← run_character_eq_fail_iff]
  simp only [List.map_cons, List.map_nil, sequence_cons, sequence_nil, run_bind, run_map, run_always,
    Outcome.bind_eq_fail_iff, Outcome.map_eq_fail_iff, reduceCtorEq, and_false, exists_false,
    or_false]

/-- An enclosure whose content never fails is refused at one of its ends. -/
theorem run_between_eq_fail_iff {opening : Parser α} {closing : Parser β} {p : Parser γ}
    (certain : ∀ s error, p.run s ≠ .fail error) {s : List Char} {error : Mismatch} :
    (between opening closing p).run s = .fail error ↔
      opening.run s = .fail error ∨
        ∃ o r, opening.run s = .ok o ∧ p.run o.rest = .ok r ∧ closing.run r.rest = .fail error := by
  simp only [between, run_keepLeft, run_keepRight, Outcome.bind_eq_fail_iff, Outcome.map_eq_fail_iff,
    Outcome.bind_eq_ok_iff, certain, and_false, exists_false, or_false]
  constructor
  · rintro (failed | ⟨r, ⟨o, opened, inside⟩, failed⟩)
    · exact Or.inl failed
    · exact Or.inr ⟨o, r, opened, inside, failed⟩
  · rintro (failed | ⟨o, r, opened, inside, failed⟩)
    · exact Or.inl failed
    · exact Or.inr ⟨r, ⟨o, opened, inside⟩, failed⟩

theorem run_enclosed_eq_fail_iff {left right : String} {opening closing : Char}
    (opens : left.toList = [opening]) (closes : right.toList = [closing]) {p : Parser γ}
    (certain : ∀ s error, p.run s ≠ .fail error) {s : List Char} {error : Mismatch} :
    (between (symbol left) (symbol right) p).run s = .fail error ↔
      Misses opening s error ∨
        ∃ t r, s = opening :: t ∧ p.run (t.dropWhile isBlank) = .ok r ∧
          Misses closing r.rest error := by
  rw [run_between_eq_fail_iff certain, run_mark_eq_fail_iff opens]
  simp only [run_mark_eq_fail_iff closes, run_symbol_eq_ok_iff, opens]
  constructor
  · rintro (misses | ⟨_, r, ⟨t, rfl, rfl⟩, inside, misses⟩)
    · exact Or.inl misses
    · exact Or.inr ⟨t, r, rfl, inside, misses⟩
  · rintro (misses | ⟨t, r, rfl, inside, misses⟩)
    · exact Or.inl misses
    · exact Or.inr ⟨_, r, ⟨t, rfl, rfl⟩, inside, misses⟩

end Descent.Parser
