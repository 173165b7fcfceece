import Descent.Proofs.Json.Derivation
import Descent.Proofs.Json.Halting

namespace Descent.Json.Grammar

open Descent.Parser

variable {α β : Type}

/-- Every success has read a text of this kind with its meaning. -/
def Reads (p : Parser α) (Text : List Char → α → Prop) : Prop :=
  ∀ s r, p.run s = .ok r → ∃ text, s = text ++ r.rest ∧ Text text r.value

theorem run_sign_minus (t : List Char) : sign.run ('-' :: t) = .ok ⟨['-'], t⟩ := rfl

theorem run_sign_other {s : List Char} (other : ∀ c ∈ s.head?, c ≠ '-') :
    sign.run s = .ok ⟨[], s⟩ := by
  cases s with
  | nil => rfl
  | cons c s =>
      rw [sign, run_optional, run_map, run_character_other s (other c rfl)]
      rfl

theorem split_of_run_sign {s : List Char} {r : Parsed (List Char)} (ok : sign.run s = .ok r) :
    s = r.value ++ r.rest ∧ (r.value = [] ∨ r.value = ['-']) := by
  simp only [sign, run_optional, Outcome.recover_eq_ok_iff, run_map, Outcome.map_eq_ok_iff,
    run_character_eq_ok_iff] at ok
  rcases ok with ⟨q, ⟨split, minus⟩, rfl⟩ | ⟨_, _, ok⟩
  · refine ⟨?_, Or.inr ?_⟩
    · simp only [Parsed.map, minus]
      exact split
    · simp only [Parsed.map, minus]
  · cases ok
    exact ⟨rfl, Or.inl rfl⟩

theorem run_nonZeroDigit_eq_ok_iff {s : List Char} {r : Parsed Char} :
    nonZeroDigit.run s = .ok r ↔
      s = r.value :: r.rest ∧ r.value.isDigit = true ∧ r.value ≠ '0' := by
  rw [nonZeroDigit, run_satisfy, Outcome.bind_eq_ok_iff]
  constructor
  · rintro ⟨q, first, judged⟩
    obtain ⟨split, digit⟩ := run_oneChar_eq_ok_iff.mp first
    by_cases nonZero : q.value = '0'
    · simp [nonZero] at judged
    · simp only [bne_iff_ne, ne_eq, nonZero, not_false_eq_true, if_true] at judged
      cases judged
      exact ⟨split, digit, nonZero⟩
  · rintro ⟨split, digit, nonZero⟩
    refine ⟨r, run_oneChar_eq_ok_iff.mpr ⟨split, digit⟩, ?_⟩
    rw [if_pos (bne_iff_ne.mpr nonZero)]

theorem run_digits (s : List Char) :
    (many digit).run s = .ok ⟨s.takeWhile Char.isDigit, s.dropWhile Char.isDigit⟩ :=
  run_many_oneChar Char.isDigit _ s

theorem split_of_run_wholePart {s : List Char} {r : Parsed (List Char)}
    (ok : wholePart.run s = .ok r) : s = r.value ++ r.rest ∧ WholeText r.value := by
  simp only [wholePart, run_orElse, Outcome.recover_eq_ok_iff, run_map, Outcome.map_eq_ok_iff,
    run_character_eq_ok_iff, run_bind, Outcome.bind_eq_ok_iff, run_digits] at ok
  rcases ok with ⟨q, ⟨split, zero⟩, rfl⟩ | ⟨_, _, q, first, t, rest, rfl⟩
  · rw [Parsed.map, zero]
    exact ⟨split, .zero⟩
  · cases rest
    obtain ⟨split, digit, nonZero⟩ := run_nonZeroDigit_eq_ok_iff.mp first
    refine ⟨?_, .leading digit nonZero fun d member => List.mem_takeWhile_imp member⟩
    simp only [Parsed.map, List.cons_append, List.takeWhile_append_dropWhile]
    exact split

theorem run_wholePart {whole t : List Char} (shape : WholeText whole)
    (stop : ∀ c ∈ t.head?, c.isDigit = false) : wholePart.run (whole ++ t) = .ok ⟨whole, t⟩ := by
  cases shape with
  | zero => rfl
  | @leading d ds digit nonZero digits =>
      have first : nonZeroDigit.run (d :: (ds ++ t)) = .ok ⟨d, ds ++ t⟩ :=
        run_nonZeroDigit_eq_ok_iff.mpr ⟨rfl, digit, nonZero⟩
      obtain ⟨taken, left⟩ := Decimal.takeWhile_digits ds t digits stop
      rw [wholePart, List.cons_append, run_orElse, run_map, run_character_other _ nonZero, run_bind,
        first]
      simp only [Outcome.map, Outcome.recover, Outcome.bind, run_map, run_digits, Parsed.map, taken,
        left]

theorem split_of_run_fraction {s : List Char} {r : Parsed (List Char)}
    (ok : (Parser.optional fractionPart []).run s = .ok r) :
    s = r.value ++ r.rest ∧ FractionText r.value := by
  simp only [run_optional, fractionPart, Outcome.recover_eq_ok_iff, run_map, Outcome.map_eq_ok_iff,
    run_keepRight, Outcome.bind_eq_ok_iff, run_many1_eq_bind, run_bind, run_character_eq_ok_iff,
    run_digits] at ok
  rcases ok with ⟨_, ⟨q, ⟨point, _⟩, d, first, _, rest, rfl⟩, rfl⟩ | ⟨_, _, ok⟩
  · cases rest
    obtain ⟨split, digit⟩ := run_oneChar_eq_ok_iff.mp first
    refine ⟨?_, .present (List.cons_ne_nil _ _) ?_⟩
    · simp only [Parsed.map, List.cons_append, List.takeWhile_append_dropWhile]
      rw [point, split]
    · intro c member
      rcases List.mem_cons.mp member with rfl | member
      · exact digit
      · exact List.mem_takeWhile_imp member
  · cases ok
    exact ⟨rfl, .absent⟩

theorem run_optionalFraction_point {d : Char} (digit : d.isDigit = true) (s : List Char) :
    (Parser.optional fractionPart []).run ('.' :: d :: s) =
      .ok ⟨'.' :: d :: s.takeWhile Char.isDigit, s.dropWhile Char.isDigit⟩ := by
  have first : Parser.digit.run (d :: s) = .ok ⟨d, s⟩ := run_oneChar_eq_ok_iff.mpr ⟨rfl, digit⟩
  rw [run_optional, fractionPart, run_map, run_keepRight, run_character_cons, run_many1_eq_bind]
  simp only [Outcome.bind, run_bind, first, run_map, run_digits, Outcome.map, Parsed.map,
    Outcome.recover]

theorem run_fraction {fraction t : List Char} (shape : FractionText fraction) (apart : Apart t) :
    (Parser.optional fractionPart []).run (fraction ++ t) = .ok ⟨fraction, t⟩ := by
  cases shape with
  | absent =>
      cases t with
      | nil => rfl
      | cons c t =>
          rw [run_optional, fractionPart, List.nil_append, run_map, run_keepRight,
            run_character_other t (apart c rfl).2]
          rfl
  | @present ds nonempty digits =>
      cases ds with
      | nil => exact absurd rfl nonempty
      | cons d ds =>
          have tail : Digits ds := fun c member => digits c (List.mem_cons_of_mem d member)
          obtain ⟨taken, left⟩ :=
            Decimal.takeWhile_digits ds t tail fun c first => (apart c first).1
          rw [List.cons_append, List.cons_append,
            run_optionalFraction_point (digits d List.mem_cons_self), taken, left]

theorem run_numeralParts_eq_ok_iff {s : List Char} {r : Parsed (List (List Char))} :
    numeralParts.run s = .ok r ↔ ∃ a b c, sign.run s = .ok a ∧ wholePart.run a.rest = .ok b ∧
      (Parser.optional fractionPart []).run b.rest = .ok c ∧
      r = ⟨[a.value, b.value, c.value], c.rest⟩ := by
  simp only [numeralParts, sequence_cons, sequence_nil, run_bind, run_map, run_always,
    Outcome.bind_eq_ok_iff, Outcome.map_eq_ok_iff]
  constructor
  · rintro ⟨a, signed, _, ⟨b, whole, _, ⟨c, fraction, _, done, rfl⟩, rfl⟩, rfl⟩
    cases done
    exact ⟨a, b, c, signed, whole, fraction, rfl⟩
  · rintro ⟨a, b, c, signed, whole, fraction, rfl⟩
    exact ⟨a, signed, _, ⟨b, whole, _, ⟨c, fraction, _, rfl, rfl⟩, rfl⟩, rfl⟩

theorem split_of_run_numeralParts {s : List Char} {r : Parsed (List (List Char))}
    (ok : numeralParts.run s = .ok r) :
    s = r.value.flatten ++ r.rest ∧ NumeralText r.value.flatten := by
  obtain ⟨a, b, c, signed, whole, fraction, rfl⟩ := run_numeralParts_eq_ok_iff.mp ok
  obtain ⟨first, minus⟩ := split_of_run_sign signed
  obtain ⟨second, front⟩ := split_of_run_wholePart whole
  obtain ⟨third, back⟩ := split_of_run_fraction fraction
  rw [second, third] at first
  simp only [List.flatten_cons, List.flatten_nil, List.append_nil, List.append_assoc]
  refine ⟨first, ?_⟩
  rcases minus with absent | minus
  · rw [absent, List.nil_append]
    exact .unsigned front back
  · rw [minus, List.cons_append, List.nil_append]
    exact .negative front back

theorem run_numeralParts {numeral t : List Char} (shape : NumeralText numeral) (apart : Apart t) :
    ∃ parts, parts.flatten = numeral ∧ numeralParts.run (numeral ++ t) = .ok ⟨parts, t⟩ := by
  cases shape with
  | @unsigned whole fraction front back =>
      obtain ⟨d, ds, rfl, digit⟩ := front.first
      have unsigned : sign.run ((d :: ds) ++ (fraction ++ t)) =
          .ok ⟨[], (d :: ds) ++ (fraction ++ t)⟩ := by
        refine run_sign_other fun c first => ?_
        cases first
        exact ne_of_isDigit digit rfl
      refine ⟨[[], d :: ds, fraction], by simp, ?_⟩
      rw [List.append_assoc]
      exact run_numeralParts_eq_ok_iff.mpr ⟨_, _, _, unsigned,
        run_wholePart front (back.stops apart), run_fraction back apart, rfl⟩
  | @negative whole fraction front back =>
      refine ⟨[['-'], whole, fraction], by simp, ?_⟩
      rw [List.cons_append, List.append_assoc]
      exact run_numeralParts_eq_ok_iff.mpr ⟨_, _, _, run_sign_minus _,
        run_wholePart front (back.stops apart), run_fraction back apart, rfl⟩

theorem run_number_eq_ok_iff {s : List Char} {r : Parsed Binary64} :
    number.run s = .ok r ↔ ∃ parts, numeralParts.run s = .ok parts ∧
      Binary64.read? parts.value.flatten = some r.value ∧
      r.rest = parts.rest.dropWhile isBlank := by
  simp only [number, run_keepLeft, run_bind, run_skipWhitespace, Outcome.bind_eq_ok_iff,
    Outcome.map_eq_ok_iff]
  constructor
  · rintro ⟨x, ⟨parts, read, converted⟩, _, skipped, rfl⟩
    cases skipped
    refine ⟨parts, read, ?_⟩
    cases meaning : Binary64.read? parts.value.flatten with
    | none =>
        rw [meaning] at converted
        cases converted
    | some value =>
        rw [meaning] at converted
        cases converted
        exact ⟨rfl, rfl⟩
  · rintro ⟨parts, read, meaning, rest⟩
    refine ⟨⟨r.value, parts.rest⟩, ⟨parts, read, ?_⟩, _, rfl, ?_⟩
    · rw [meaning]
      rfl
    · rw [← rest]

theorem number_reads : Reads number NumberText := by
  intro s r ok
  obtain ⟨parts, read, meaning, rest⟩ := run_number_eq_ok_iff.mp ok
  obtain ⟨split, shape⟩ := split_of_run_numeralParts read
  refine ⟨parts.value.flatten ++ parts.rest.takeWhile isBlank, ?_,
    .mk shape meaning (blanks_takeWhile _)⟩
  rw [rest, List.append_assoc, List.takeWhile_append_dropWhile]
  exact split

theorem run_number {text t : List Char} {x : Binary64} (number : NumberText text x)
    (apart : Apart t) :
    Grammar.number.run (text ++ t) = .ok ⟨x, t.dropWhile isBlank⟩ := by
  obtain @⟨numeral, w, _, shape, meaning, blanks⟩ := number
  obtain ⟨parts, joined, read⟩ := run_numeralParts shape (apart.blanks_append blanks)
  rw [Grammar.number, run_keepLeft, run_bind, List.append_assoc, read]
  simp only [Outcome.bind, joined, meaning, run_always, run_skipWhitespace, Outcome.map,
    blanks.dropWhile_append]

theorem boolean_reads : Reads boolean BooleanText := by
  intro s r ok
  obtain ⟨p, member, ok⟩ := exists_of_run_choice ok
  simp only [List.mem_cons, List.not_mem_nil, or_false] at member
  rcases member with rfl | rfl
  · rw [run_replace, Outcome.map_eq_ok_iff] at ok
    obtain ⟨q, read, rfl⟩ := ok
    obtain ⟨t, rfl, rfl⟩ := run_symbol_eq_ok_iff.mp read
    refine ⟨"true".toList ++ t.takeWhile isBlank, ?_, .yes (blanks_takeWhile t)⟩
    rw [List.append_assoc, List.takeWhile_append_dropWhile]
  · rw [run_replace, Outcome.map_eq_ok_iff] at ok
    obtain ⟨q, read, rfl⟩ := ok
    obtain ⟨t, rfl, rfl⟩ := run_symbol_eq_ok_iff.mp read
    refine ⟨"false".toList ++ t.takeWhile isBlank, ?_, .no (blanks_takeWhile t)⟩
    rw [List.append_assoc, List.takeWhile_append_dropWhile]

theorem run_boolean {text : List Char} {b : Bool} (shape : BooleanText text b) (t : List Char) :
    boolean.run (text ++ t) = .ok ⟨b, t.dropWhile isBlank⟩ := by
  cases shape with
  | @yes w blanks =>
      have read : ((symbol "true").replace true).run ("true".toList ++ (w ++ t)) =
          .ok ⟨true, t.dropWhile isBlank⟩ := by
        rw [run_replace, run_symbol, blanks.dropWhile_append]
        rfl
      exact run_choice_of_ok "boolean" (List.forall_mem_nil _) read
  | @no w blanks =>
      have read : ((symbol "false").replace false).run ("false".toList ++ (w ++ t)) =
          .ok ⟨false, t.dropWhile isBlank⟩ := by
        rw [run_replace, run_symbol, blanks.dropWhile_append]
        rfl
      have refuses : Refuses ((symbol "true").replace true) ("false".toList ++ (w ++ t)) :=
        ⟨_, rfl⟩
      have refuse : ∀ q ∈ [(symbol "true").replace true], Refuses q ("false".toList ++ (w ++ t)) := by
        intro q member
        rw [List.mem_singleton.mp member]
        exact refuses
      exact run_choice_of_ok "boolean" refuse read

end Descent.Json.Grammar
