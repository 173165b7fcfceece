import Descent.Proofs.Json.Failure

namespace Descent.Json.Grammar

open Descent.Parser

/-- The longest of the texts of this kind that `s` starts with. -/
structure LongestFront (Text : List Char → Prop) (s u : List Char) : Prop where
  front : u <+: s
  shape : Text u
  longest : ∀ v, v <+: s → Text v → v.length ≤ u.length

theorem LongestFront.unique {Text : List Char → Prop} {s u v : List Char}
    (left : LongestFront Text s u) (right : LongestFront Text s v) : u = v := by
  have shorter := right.longest u left.front left.shape
  have longer := left.longest v right.front right.shape
  exact List.prefix_of_prefix_length_le left.front right.front shorter |>.eq_of_length_le longer

theorem exists_run_optionalFraction (s : List Char) :
    ∃ r, (Parser.optional fractionPart []).run s = .ok r :=
  exists_run_of_certain (fun bound => (agree_fractionPart bound).optional [])
    (optional_ne_fail fractionPart []) s

theorem length_le_takeWhile_digits {ds : List Char} (digits : Digits ds) (t : List Char) :
    ds.length ≤ ((ds ++ t).takeWhile Char.isDigit).length := by
  rw [List.takeWhile_append_of_pos digits, List.length_append]
  exact Nat.le_add_right _ _

/-- In front of a fraction that part takes the fraction, and perhaps digits behind it. -/
theorem run_fraction_covers {fraction : List Char} (shape : FractionText fraction) (t : List Char) :
    ∃ r, (Parser.optional fractionPart []).run (fraction ++ t) = .ok r ∧
      fraction.length ≤ r.value.length := by
  cases shape with
  | absent =>
      obtain ⟨r, ok⟩ := exists_run_optionalFraction ([] ++ t)
      exact ⟨r, ok, Nat.zero_le _⟩
  | @present ds nonempty digits =>
      cases ds with
      | nil => exact absurd rfl nonempty
      | cons d ds =>
          have tail : Digits ds := fun c member => digits c (List.mem_cons_of_mem d member)
          refine ⟨_, run_optionalFraction_point (digits d List.mem_cons_self) (ds ++ t), ?_⟩
          exact Nat.succ_le_succ (Nat.succ_le_succ (length_le_takeWhile_digits tail t))

theorem run_wholePart_covers {whole : List Char} (shape : WholeText whole) (t : List Char) :
    ∃ r, wholePart.run (whole ++ t) = .ok r ∧ whole.length ≤ r.value.length := by
  cases shape with
  | zero => exact ⟨⟨['0'], t⟩, rfl, Nat.le_refl 1⟩
  | @leading d ds digit nonZero digits =>
      have first : nonZeroDigit.run (d :: (ds ++ t)) = .ok ⟨d, ds ++ t⟩ :=
        run_nonZeroDigit_eq_ok_iff.mpr ⟨rfl, digit, nonZero⟩
      refine ⟨⟨d :: (ds ++ t).takeWhile Char.isDigit, (ds ++ t).dropWhile Char.isDigit⟩, ?_, ?_⟩
      · rw [wholePart, List.cons_append, run_orElse, run_map, run_character_other _ nonZero,
          run_bind, first]
        simp only [Outcome.map, Outcome.recover, Outcome.bind, run_map, run_digits, Parsed.map]
      · exact Nat.succ_le_succ (length_le_takeWhile_digits digits t)

/-- Whole part and fraction together take at least the texts that stand there. Without a fraction the
whole part may go on behind its text; with one it stops at the point. -/
theorem run_parts_cover {whole fraction : List Char} (front : WholeText whole)
    (back : FractionText fraction) (t : List Char) :
    ∃ a b, wholePart.run (whole ++ (fraction ++ t)) = .ok a ∧
      (Parser.optional fractionPart []).run a.rest = .ok b ∧
      (whole ++ fraction).length ≤ (a.value ++ b.value).length := by
  by_cases empty : fraction = []
  · obtain ⟨a, ok, covers⟩ := run_wholePart_covers front (fraction ++ t)
    obtain ⟨b, behind⟩ := exists_run_optionalFraction a.rest
    refine ⟨a, b, ok, behind, ?_⟩
    rw [empty, List.append_nil, List.length_append]
    exact Nat.le_add_right_of_le covers
  · have stop : ∀ c ∈ (fraction ++ t).head?, c.isDigit = false := by
      intro c first
      cases back with
      | absent => exact absurd rfl empty
      | present nonempty digits =>
          cases first
          rfl
    obtain ⟨b, behind, covers⟩ := run_fraction_covers back t
    refine ⟨⟨whole, fraction ++ t⟩, b, run_wholePart front stop, behind, ?_⟩
    rw [List.length_append, List.length_append]
    exact Nat.add_le_add_left covers _

/-- Where a numeral stands in front, a numeral is read that is at least as long. -/
theorem run_numeralParts_covers {u : List Char} (shape : NumeralText u) (t : List Char) :
    ∃ r, numeralParts.run (u ++ t) = .ok r ∧ u.length ≤ r.value.flatten.length := by
  cases shape with
  | @unsigned whole fraction front back =>
      obtain ⟨a, b, first, second, covers⟩ := run_parts_cover front back t
      have signed : sign.run ((whole ++ fraction) ++ t) = .ok ⟨[], whole ++ (fraction ++ t)⟩ := by
        obtain ⟨d, ds, rfl, digit⟩ := front.first
        rw [List.append_assoc]
        refine run_sign_other fun c first => ?_
        cases first
        exact ne_of_isDigit digit rfl
      refine ⟨_, run_numeralParts_eq_ok_iff.mpr ⟨_, a, b, signed, first, second, rfl⟩, ?_⟩
      simpa using covers
  | @negative whole fraction front back =>
      obtain ⟨a, b, first, second, covers⟩ := run_parts_cover front back t
      have signed : sign.run ('-' :: (whole ++ fraction) ++ t) =
          .ok ⟨['-'], whole ++ (fraction ++ t)⟩ := by
        rw [List.cons_append, List.append_assoc]
        exact run_sign_minus _
      refine ⟨_, run_numeralParts_eq_ok_iff.mpr ⟨_, a, b, signed, first, second, rfl⟩, ?_⟩
      simpa using covers

theorem longestFront_of_run_numeralParts {s : List Char} {r : Parsed (List (List Char))}
    (ok : numeralParts.run s = .ok r) : LongestFront NumeralText s r.value.flatten := by
  obtain ⟨split, shape⟩ := split_of_run_numeralParts ok
  refine ⟨⟨r.rest, split.symm⟩, shape, ?_⟩
  rintro v ⟨t, rfl⟩ numeral
  obtain ⟨q, read, covers⟩ := run_numeralParts_covers numeral t
  rw [ok] at read
  cases read
  exact covers

theorem exists_run_numeralParts_iff {s : List Char} :
    (∃ parts, numeralParts.run s = .ok parts) ↔ ∃ u, u <+: s ∧ NumeralText u := by
  constructor
  · rintro ⟨parts, read⟩
    have longest := longestFront_of_run_numeralParts read
    exact ⟨_, longest.front, longest.shape⟩
  · rintro ⟨u, ⟨t, rfl⟩, shape⟩
    obtain ⟨parts, read, _⟩ := run_numeralParts_covers shape t
    exact ⟨parts, read⟩

theorem exists_run_number_iff {s : List Char} :
    (∃ r, number.run s = .ok r) ↔ ∃ u, u <+: s ∧ NumeralText u := by
  rw [← exists_run_numeralParts_iff]
  constructor
  · rintro ⟨r, ok⟩
    obtain ⟨parts, read, _⟩ := run_number_eq_ok_iff.mp ok
    exact ⟨parts, read⟩
  · rintro ⟨parts, read⟩
    obtain ⟨x, meaning⟩ := (split_of_run_numeralParts read).2.exists_meaning
    exact ⟨⟨x, _⟩, run_number_eq_ok_iff.mpr ⟨parts, read, meaning, rfl⟩⟩

theorem mismatch_of_run_number {s : List Char} {error : Mismatch}
    (failed : number.run s = .fail error) : error = digitMismatch (unsigned s) :=
  (run_digit_eq_fail_iff.mp (run_number_eq_fail_iff.mp failed)).1

theorem run_number_eq_ok_iff_longestFront {s : List Char} {r : Parsed Binary64} :
    number.run s = .ok r ↔ ∃ u t, s = u ++ t ∧ LongestFront NumeralText s u ∧
      Binary64.read? u = some r.value ∧ r.rest = t.dropWhile isBlank := by
  rw [run_number_eq_ok_iff]
  constructor
  · rintro ⟨parts, read, meaning, rest⟩
    exact ⟨_, parts.rest, (split_of_run_numeralParts read).1, longestFront_of_run_numeralParts read,
      meaning, rest⟩
  · rintro ⟨u, t, split, longest, meaning, rest⟩
    obtain ⟨parts, read⟩ := exists_run_numeralParts_iff.mpr ⟨u, longest.front, longest.shape⟩
    -- There is only one longest numeral, so it is the one that the parts make up.
    obtain rfl := (longestFront_of_run_numeralParts read).unique longest
    have same := split.symm.trans (split_of_run_numeralParts read).1
    obtain rfl := List.append_cancel_left same
    exact ⟨parts, read, meaning, rest⟩

theorem run_number_eq_fail_iff_no_numeral {s : List Char} {error : Mismatch} :
    number.run s = .fail error ↔
      (¬∃ u, u <+: s ∧ NumeralText u) ∧ error = digitMismatch (unsigned s) := by
  rw [← exists_run_number_iff]
  have ends : number.run s ≠ .stalled := (agree_number (s.length + 1) s (Nat.lt_succ_self _)).2
  constructor
  · intro failed
    exact ⟨(refuses_iff_not_ok ends).mp ⟨error, failed⟩, mismatch_of_run_number failed⟩
  · rintro ⟨none, rfl⟩
    obtain ⟨error, failed⟩ := (refuses_iff_not_ok ends).mpr none
    rw [failed, mismatch_of_run_number failed]

theorem run_nonZeroDigit_ne_fail {s : List Char} (refuses : Refuses (character '0') s)
    (found : String) : nonZeroDigit.run s ≠ .fail ⟨"non-zero digit", found⟩ := by
  rw [run_nonZeroDigit_of_refuses refuses]
  intro failed
  have error := (run_digit_eq_fail_iff.mp failed).1
  cases s with
  | nil => simp [digitMismatch] at error
  | cons c s => simp [digitMismatch] at error

/-- A number is the longest numeral in front, with the blanks behind it. It is read exactly where there
is a numeral in front; otherwise it fails on the first character behind an optional minus, which is no
digit. The conversion of what was read always succeeds, and where a zero was refused no zero is found. -/
theorem number_reads_longest_numeral (s : List Char) :
    ((∃ r, number.run s = .ok r) ↔ ∃ u, u <+: s ∧ NumeralText u) ∧
    (∀ r, number.run s = .ok r ↔ ∃ u t, s = u ++ t ∧ LongestFront NumeralText s u ∧
      Binary64.read? u = some r.value ∧ r.rest = t.dropWhile isBlank) ∧
    (∀ error, number.run s = .fail error ↔
      (¬∃ u, u <+: s ∧ NumeralText u) ∧ error = digitMismatch (unsigned s)) ∧
    (∀ parts, numeralParts.run s = .ok parts →
      ∃ x, Binary64.read? parts.value.flatten = some x) ∧
    (Refuses (character '0') s →
      ∀ found, nonZeroDigit.run s ≠ .fail ⟨"non-zero digit", found⟩) := by
  refine ⟨exists_run_number_iff, fun r => run_number_eq_ok_iff_longestFront,
    fun error => run_number_eq_fail_iff_no_numeral, ?_, run_nonZeroDigit_ne_fail⟩
  intro parts read
  exact (split_of_run_numeralParts read).2.exists_meaning

/-- A point with no digit behind it is left, and one with no digit in front of it is what fails. -/
theorem number_reads_longest_numeral_before_point :
    LongestFront NumeralText "-10.x".toList "-10".toList ∧
      number.run "-10.x".toList = .ok ⟨⟨true, 0x4024000000000000⟩, ".x".toList⟩ ∧
      number.run "-.5".toList = .fail ⟨"digit", "."⟩ := by
  have parts : numeralParts.run "-10.x".toList = .ok ⟨[['-'], ['1', '0'], []], ".x".toList⟩ := rfl
  have longest := longestFront_of_run_numeralParts parts
  have meaning : Binary64.read? "-10".toList = some ⟨true, 0x4024000000000000⟩ := by decide +kernel
  have none : ¬∃ u, u <+: "-.5".toList ∧ NumeralText u := by
    rw [← exists_run_numeralParts_iff]
    rintro ⟨parts, read⟩
    cases read
  refine ⟨longest, ?_, ?_⟩
  · exact ((number_reads_longest_numeral _).2.1 _).mpr ⟨_, ".x".toList, rfl, longest, meaning, rfl⟩
  · exact ((number_reads_longest_numeral _).2.2.1 _).mpr ⟨none, rfl⟩

end Descent.Json.Grammar
