import Descent.Proofs.Failure
import Descent.Proofs.Json.Boundary
import Descent.Proofs.Json.Quoted

namespace Descent.Json.Grammar

open Descent.Parser

/-- What is left behind a minus, if there is one. -/
def unsigned : List Char → List Char
  | '-' :: s => s
  | s => s

theorem unsigned_of_other {s : List Char} (other : ∀ c ∈ s.head?, c ≠ '-') : unsigned s = s := by
  unfold unsigned
  split
  · exact absurd rfl (other '-' rfl)
  · rfl

theorem exists_run_sign (s : List Char) : ∃ minus, sign.run s = .ok ⟨minus, unsigned s⟩ := by
  by_cases minus : ∃ t, s = '-' :: t
  · obtain ⟨t, rfl⟩ := minus
    exact ⟨['-'], run_sign_minus t⟩
  · have other : ∀ c ∈ s.head?, c ≠ '-' := by
      rintro c first rfl
      exact minus (List.head?_eq_some_iff.mp first)
    exact ⟨[], by rw [unsigned_of_other other, run_sign_other other]⟩

/-- A digit behind a refused zero is not zero. -/
theorem ne_zero_of_run_digit {s : List Char} {r : Parsed Char} (refuses : Refuses (character '0') s)
    (ok : digit.run s = .ok r) : r.value ≠ '0' := by
  intro zero
  obtain ⟨error, failed⟩ := refuses
  obtain ⟨split, _⟩ := run_oneChar_eq_ok_iff.mp ok
  rw [split, zero, run_character_cons] at failed
  cases failed

theorem run_nonZeroDigit_of_refuses {s : List Char} (refuses : Refuses (character '0') s) :
    nonZeroDigit.run s = digit.run s := by
  rw [nonZeroDigit, run_satisfy]
  cases ran : digit.run s with
  | fail error => rfl
  | stalled => rfl
  | ok r => exact if_pos (bne_iff_ne.mpr (ne_zero_of_run_digit refuses ran))

theorem run_wholePart_eq_fail_iff {s : List Char} {error : Mismatch} :
    wholePart.run s = .fail error ↔ digit.run s = .fail error := by
  simp only [wholePart, run_orElse, Outcome.recover_eq_fail_iff, run_map, Outcome.map_eq_fail_iff,
    run_bind, Outcome.bind_eq_fail_iff, many_ne_fail, and_false, exists_false, or_false]
  constructor
  · rintro ⟨first, refused, failed⟩
    rw [run_nonZeroDigit_of_refuses ⟨first, refused⟩] at failed
    exact failed
  · intro failed
    have other := (run_digit_eq_fail_iff.mp failed).2
    obtain ⟨first, refused⟩ : Refuses (character '0') s := by
      refine character_refuses fun c front => ?_
      rintro rfl
      cases other '0' front
    exact ⟨first, refused, (run_nonZeroDigit_of_refuses ⟨first, refused⟩).trans failed⟩

theorem run_numeralParts_eq_fail_iff {s : List Char} {error : Mismatch} :
    numeralParts.run s = .fail error ↔ digit.run (unsigned s) = .fail error := by
  obtain ⟨minus, signed⟩ := exists_run_sign s
  simp only [numeralParts, sequence_cons, sequence_nil, run_bind, run_map, run_always,
    Outcome.bind_eq_fail_iff, Outcome.map_eq_fail_iff, optional_ne_fail, signed,
    run_wholePart_eq_fail_iff, reduceCtorEq, and_false, exists_false, or_false, false_or,
    Outcome.ok.injEq, exists_eq_left']

/-- The conversion of what was read never fails, so neither does anything behind the parts. -/
theorem run_number_eq_fail_iff {s : List Char} {error : Mismatch} :
    number.run s = .fail error ↔ digit.run (unsigned s) = .fail error := by
  rw [number, run_keepLeft_eq_fail_iff skipWhitespace_ne_fail, run_bind, Outcome.bind_eq_fail_iff,
    run_numeralParts_eq_fail_iff]
  refine or_iff_left ?_
  rintro ⟨parts, read, failed⟩
  obtain ⟨x, meaning⟩ := (split_of_run_numeralParts read).2.exists_meaning
  rw [meaning] at failed
  cases failed

theorem run_boolean_eq_fail_iff {s : List Char} {error : Mismatch} :
    boolean.run s = .fail error ↔
      error = ⟨"boolean", "no match"⟩ ∧ Refuses (symbol "true") s ∧ Refuses (symbol "false") s := by
  simp only [boolean, run_choice_eq_fail_iff, List.forall_mem_cons, List.not_mem_nil, false_implies,
    implies_true, and_true, Refuses, run_replace, Outcome.map_eq_fail_iff]

/-- The units of a string end at a quote or with the text. -/
theorem run_string_eq_fail_iff {s : List Char} {error : Mismatch} :
    string.run s = .fail error ↔
      Misses '"' s error ∨ ∃ t cs, s = '"' :: t ∧ (many stringCharacter).run t = .ok ⟨cs, []⟩ ∧
        error = ⟨"any character", "end of input"⟩ := by
  rw [string, run_keepLeft_eq_fail_iff skipWhitespace_ne_fail, run_map, Outcome.map_eq_fail_iff]
  refine (run_between_eq_fail_iff (many_ne_fail stringCharacter)).trans ?_
  simp only [run_character_eq_fail_iff, run_character_eq_ok_iff]
  constructor
  · rintro (misses | ⟨o, r, ⟨split, _⟩, units, misses⟩)
    · exact Or.inl misses
    · -- The loop ends at a quote or at the end, and in front of a quote nothing is missed.
      have last := stringCharacter_refuses_iff.mp (repeats_of_run_many units).refuses
      obtain ⟨cs, rest⟩ := r
      cases misses with
      | ended => exact Or.inr ⟨o.rest, cs, split, units, rfl⟩
      | other differs => exact absurd (last _ rfl) differs
  · rintro (misses | ⟨t, cs, split, units, rfl⟩)
    · exact Or.inl misses
    · exact Or.inr ⟨⟨'"', t⟩, ⟨cs, []⟩, ⟨split, rfl⟩, units, .ended⟩

theorem run_array_eq_fail_iff {s : List Char} {error : Mismatch} :
    array.run s = .fail error ↔
      Misses '[' s error ∨ ∃ t r, s = '[' :: t ∧
        (sepBy value (symbol ",")).run (t.dropWhile isBlank) = .ok r ∧ Misses ']' r.rest error := by
  rw [run_array_eq, run_arrayOf]
  exact run_enclosed_eq_fail_iff rfl rfl (sepBy_ne_fail _ _)

theorem run_object_eq_fail_iff {s : List Char} {error : Mismatch} :
    object.run s = .fail error ↔
      Misses '\x7b' s error ∨ ∃ t r, s = '\x7b' :: t ∧
        (sepBy (entryOf fun _ => value) (symbol ",")).run (t.dropWhile isBlank) = .ok r ∧
          Misses '\x7d' r.rest error := by
  rw [run_object_eq, objectOf, run_map, Outcome.map_eq_fail_iff]
  exact run_enclosed_eq_fail_iff rfl rfl (sepBy_ne_fail _ _)

theorem run_value_eq_fail_iff {s : List Char} {error : Mismatch} :
    value.run s = .fail error ↔ error = ⟨"JSON value", "no match"⟩ ∧ Refuses value s := by
  constructor
  · intro failed
    refine ⟨?_, error, failed⟩
    rw [run_value_eq] at failed
    exact (run_choice_eq_fail_iff.mp failed).1
  · rintro ⟨rfl, other, failed⟩
    have known := failed
    rw [run_value_eq] at known
    rw [failed, (run_choice_eq_fail_iff.mp known).1]

/-- The two reports about a document: no value in front, or something behind the value. -/
theorem parse_document_eq_fail_iff {s : List Char} {error : Mismatch} :
    document.parse s = .fail error ↔
      (error = ⟨"JSON value", "no match"⟩ ∧ Refuses value (s.dropWhile isBlank)) ∨
        ∃ v c t, value.run (s.dropWhile isBlank) = .ok ⟨v, c :: t⟩ ∧ isBlank c = false ∧
          error = ⟨"end of input", c.toString⟩ := by
  rw [parse_eq, run_document, Outcome.bind_eq_fail_iff, run_value_eq_fail_iff]
  refine or_congr_right ?_
  constructor
  · rintro ⟨⟨v, rest⟩, read, left⟩
    cases rest with
    | nil => cases left
    | cons c t =>
        cases left
        exact ⟨v, c, t, read, trims_value _ _ read c rfl, rfl⟩
  · rintro ⟨v, c, t, read, solid, rfl⟩
    exact ⟨⟨v, c :: t⟩, read, rfl⟩

theorem run_array_eq_of_same {p : Parser Json} (same : SameUpToError p value) (s : List Char) :
    array.run s = (arrayOf fun _ => p).run s := by
  have contents := same.symm.run_sepBy_eq (symbol ",")
  rw [run_array_eq, run_arrayOf, run_arrayOf]
  exact congrFun (between_congr rfl rfl contents) s

theorem run_object_eq_of_same {p : Parser (String × Json)}
    (same : SameUpToError p (entryOf fun _ => value)) (s : List Char) :
    object.run s = ((braces (sepBy p (symbol ","))).map Entries.ofBindings).run s := by
  have contents := same.symm.run_sepBy_eq (symbol ",")
  rw [run_object_eq]
  exact congrFun (map_congr (between_congr rfl rfl contents) Entries.ofBindings) s

theorem run_string_eq_of_same {p : Parser Char} (same : SameUpToError p stringCharacter)
    (s : List Char) :
    string.run s = (((between (character '"') (character '"') (many p)).map String.ofList).keepLeft
      skipWhitespace).run s := by
  have quoted : (between (character '"') (character '"') (many stringCharacter)).run = _ :=
    between_congr rfl rfl (congrArg run same.symm.many_eq)
  exact congrFun (keepLeft_congr (map_congr quoted String.ofList) rfl) s

/-- Every failure there is. A document fails with one of two reports, the first of them exactly when no
value stands in front. A boolean has one report. A string, an array or an object fails at its opening
character, or at its closing one behind a content that has been read; why a unit, an element or an entry
inside it failed makes no difference. -/
theorem failures_of_grammar (s : List Char) (error : Mismatch) :
    (document.parse s = .fail ⟨"JSON value", "no match"⟩ ↔ Refuses value (s.dropWhile isBlank)) ∧
    (document.parse s = .fail error ↔
      (error = ⟨"JSON value", "no match"⟩ ∧ Refuses value (s.dropWhile isBlank)) ∨
        ∃ v c t, value.run (s.dropWhile isBlank) = .ok ⟨v, c :: t⟩ ∧ isBlank c = false ∧
          error = ⟨"end of input", c.toString⟩) ∧
    (boolean.run s = .fail error ↔
      error = ⟨"boolean", "no match"⟩ ∧ Refuses (symbol "true") s ∧ Refuses (symbol "false") s) ∧
    (string.run s = .fail error ↔
      Misses '"' s error ∨ ∃ t cs, s = '"' :: t ∧ (many stringCharacter).run t = .ok ⟨cs, []⟩ ∧
        error = ⟨"any character", "end of input"⟩) ∧
    (array.run s = .fail error ↔
      Misses '[' s error ∨ ∃ t r, s = '[' :: t ∧
        (sepBy value (symbol ",")).run (t.dropWhile isBlank) = .ok r ∧ Misses ']' r.rest error) ∧
    (object.run s = .fail error ↔
      Misses '\x7b' s error ∨ ∃ t r, s = '\x7b' :: t ∧
        (sepBy (entryOf fun _ => value) (symbol ",")).run (t.dropWhile isBlank) = .ok r ∧
          Misses '\x7d' r.rest error) ∧
    (∀ p, SameUpToError p stringCharacter → string.run s =
      (((between (character '"') (character '"') (many p)).map String.ofList).keepLeft
        skipWhitespace).run s) ∧
    (∀ p, SameUpToError p value → array.run s = (arrayOf fun _ => p).run s) ∧
    (∀ p, SameUpToError p (entryOf fun _ => value) → object.run s =
      ((braces (sepBy p (symbol ","))).map Entries.ofBindings).run s) := by
  refine ⟨?_, parse_document_eq_fail_iff, run_boolean_eq_fail_iff, run_string_eq_fail_iff,
    run_array_eq_fail_iff, run_object_eq_fail_iff, fun p same => run_string_eq_of_same same s,
    fun p same => run_array_eq_of_same same s, fun p same => run_object_eq_of_same same s⟩
  rw [parse_document_eq_fail_iff]
  constructor
  · rintro (⟨_, refuses⟩ | ⟨v, c, t, _, _, same⟩)
    · exact refuses
    · have names : "JSON value" = "end of input" := congrArg Mismatch.expected same
      exact absurd names (by decide)
  · intro refuses
    exact Or.inl ⟨rfl, refuses⟩

/-- An item that fails is reported as the comma in front of it, whatever name the item has. -/
theorem failures_of_grammar_in_items :
    let s := "[true,x]".toList
    let item := value.label "item"
    SameUpToError item value ∧ item.run "x]".toList = .fail ⟨"item", "no match"⟩ ∧
      array.run s = .fail ⟨"]", ","⟩ ∧ (arrayOf fun _ => item).run s = .fail ⟨"]", ","⟩ := by
  intro s item
  have same : SameUpToError item value := sameUpToError_label value "item"
  have content : (sepBy value (symbol ",")).run "true,x]".toList =
      .ok ⟨[.boolean true], ",x]".toList⟩ := rfl
  have failed : array.run s = .fail ⟨"]", ","⟩ :=
    (failures_of_grammar s _).2.2.2.2.1.mpr (Or.inr ⟨_, _, rfl, content, .other (by decide)⟩)
  refine ⟨same, rfl, failed, ?_⟩
  rw [← (failures_of_grammar s ⟨"]", ","⟩).2.2.2.2.2.2.2.1 item same]
  exact failed

end Descent.Json.Grammar
