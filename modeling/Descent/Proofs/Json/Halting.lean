import Descent.Json.Grammar
import Descent.Proofs.Token

/-!
Each production takes a character before it reaches for a nested value, so the nested value stands on less
input, and each repetition has an element that takes a character.
-/

namespace Descent.Json.Grammar

open Descent.Parser

theorem takes_sign : Takes 0 sign := ((takes_character '-').map _).optional []

theorem takes_nonZeroDigit : Takes 1 nonZeroDigit := takes_digit.satisfy _ _

theorem takes_wholePart : Takes 1 wholePart := by
  have zero : Takes 1 ((character '0').map fun c => [c]) := (takes_character '0').map _
  exact zero.orElse (takes_nonZeroDigit.bind fun first => takes_digit.many.map _)

theorem takes_fractionPart : Takes 2 fractionPart :=
  ((takes_character '.').keepRight takes_digit.many1).map _

theorem takes_numeralParts : Takes 1 numeralParts :=
  takes_sign.sequence_cons (takes_wholePart.sequence_cons
    ((takes_fractionPart.optional []).sequence_cons takes_sequence_nil))

theorem takes_conversion (parts : List (List Char)) :
    Takes 0 (match Binary64.read? parts.flatten with
      | some x => always x
      | none => never ⟨"number", String.ofList parts.flatten⟩) := by
  split
  · exact takes_always _
  · exact takes_never 0 _

theorem takes_number : Takes 1 number :=
  (takes_numeralParts.bind takes_conversion).keepLeft takes_skipWhitespace

theorem takes_boolean : Takes 1 boolean := by
  have yes : Takes 1 (symbol "true") := (takes_symbol "true").mono (by decide)
  have no : Takes 1 (symbol "false") := (takes_symbol "false").mono (by decide)
  exact (yes.replace true).orElse ((no.replace false).orElse (takes_never 1 _))

theorem takes_escape (code meaning : Char) : Takes 1 (escape code meaning) :=
  ((takes_character '\\').keepRight (takes_character code).zero).replace meaning

theorem takes_stringCharacter : Takes 1 stringCharacter :=
  (takes_escape _ _).orElse <| (takes_escape _ _).orElse <| (takes_escape _ _).orElse <|
    (takes_escape _ _).orElse <| (takes_oneChar _ _).orElse (takes_never 1 _)

theorem takes_opened : Takes 1 ((character '"').keepRight (many stringCharacter)) :=
  (takes_character '"').keepRight takes_stringCharacter.many

theorem takes_closed :
    Takes 1 (((character '"').keepRight (many stringCharacter)).keepLeft (character '"')) :=
  takes_opened.keepLeft (takes_character '"').zero

theorem takes_string : Takes 1 string :=
  (takes_closed.map String.ofList).keepLeft takes_skipWhitespace

theorem agree_wholePart (bound : Nat) : AgreeBelow bound wholePart wholePart := by
  have zero : AgreeBelow bound ((character '0').map fun c => [c]) _ :=
    (agree_character bound '0').map _
  have leading : AgreeBelow bound nonZeroDigit nonZeroDigit :=
    AgreeBelow.satisfy takes_digit (agree_digit bound) _ _
  have digits : AgreeBelow bound (many digit) (many digit) :=
    AgreeBelow.many takes_digit (agree_digit bound)
  exact zero.orElse (AgreeBelow.bind takes_nonZeroDigit leading fun first => digits.map _)

theorem agree_fractionPart (bound : Nat) : AgreeBelow bound fractionPart fractionPart := by
  have digits : AgreeBelow bound (many1 digit) (many1 digit) :=
    AgreeBelow.many1 takes_digit (agree_digit bound)
  exact (AgreeBelow.keepRight (takes_character '.') (agree_character bound '.') digits).map _

theorem agree_numeralParts (bound : Nat) : AgreeBelow bound numeralParts numeralParts := by
  apply AgreeBelow.sequence_cons takes_sign (((agree_character bound '-').map _).optional [])
  apply AgreeBelow.sequence_cons takes_wholePart (agree_wholePart bound)
  apply AgreeBelow.sequence_cons (takes_fractionPart.optional [])
    ((agree_fractionPart bound).optional [])
  exact agree_sequence_nil bound

theorem agree_number (bound : Nat) : AgreeBelow bound number number := by
  apply AgreeBelow.keepLeft (takes_numeralParts.bind takes_conversion)
  · apply AgreeBelow.bind takes_numeralParts (agree_numeralParts bound)
    intro parts
    cases Binary64.read? parts.flatten with
    | some x => exact agree_always bound x
    | none => exact agree_never bound _
  · exact agree_skipWhitespace bound

theorem agree_boolean (bound : Nat) : AgreeBelow bound boolean boolean := by
  have yes := (agree_symbol bound "true").replace true
  have no := (agree_symbol bound "false").replace false
  exact yes.orElse (no.orElse (agree_never bound _))

theorem agree_escape (bound : Nat) (code meaning : Char) :
    AgreeBelow bound (escape code meaning) (escape code meaning) :=
  (AgreeBelow.keepRight (takes_character '\\') (agree_character bound '\\')
    (agree_character bound code)).replace meaning

theorem agree_stringCharacter (bound : Nat) : AgreeBelow bound stringCharacter stringCharacter :=
  (agree_escape bound _ _).orElse <| (agree_escape bound _ _).orElse <|
    (agree_escape bound _ _).orElse <| (agree_escape bound _ _).orElse <|
      (agree_oneChar bound _ _).orElse (agree_never bound _)

theorem agree_string (bound : Nat) : AgreeBelow bound string string := by
  have content : AgreeBelow bound (many stringCharacter) (many stringCharacter) :=
    AgreeBelow.many takes_stringCharacter (agree_stringCharacter bound)
  have opened := AgreeBelow.keepRight (takes_character '"') (agree_character bound '"') content
  have closed := AgreeBelow.keepLeft takes_opened opened (agree_character bound '"')
  exact AgreeBelow.keepLeft (takes_closed.map String.ofList) (closed.map String.ofList)
    (agree_skipWhitespace bound)

theorem takes_comma : Takes 1 (symbol ",") := (takes_symbol ",").mono (by decide)

theorem takes_bracket : Takes 1 (symbol "[") := (takes_symbol "[").mono (by decide)

theorem takes_brace : Takes 1 (symbol "\x7b") := (takes_symbol "\x7b").mono (by decide)

theorem takes_key : Takes 1 (string.keepLeft (symbol ":")) :=
  takes_string.keepLeft (takes_symbol ":").zero

theorem takes_entryOf {count : Nat} {item : Unit → Parser Json} (takes : Takes count (item ())) :
    Takes 1 (entryOf item) :=
  takes_key.bind fun _ => takes.zero.map _

theorem takes_objectOf {count : Nat} {item : Unit → Parser Json} (takes : Takes count (item ())) :
    Takes 1 (objectOf item) := by
  have entries : Takes 0 (sepBy (entryOf item) (symbol ",")) :=
    (takes_entryOf takes).sepBy takes_comma
  exact (takes_brace.between entries (takes_symbol "\x7d").zero).map Entries.ofBindings

theorem takes_arrayOf {count : Nat} {item : Unit → Parser Json} (takes : Takes count (item ())) :
    Takes 1 (arrayOf item) := by
  have items : Takes 0 (sepBy (item ()) (symbol ",")) := takes.sepBy takes_comma
  have enclosed : Takes 1 (brackets (sepBy (item ()) (symbol ","))) :=
    takes_bracket.between items (takes_symbol "]").zero
  exact takes_nothing.bind fun _ => enclosed

theorem takes_valueOf {count : Nat} {item : Unit → Parser Json} (takes : Takes count (item ())) :
    Takes 1 (valueOf item) :=
  (takes_number.map _).orElse <| (takes_boolean.map _).orElse <| (takes_string.map _).orElse <|
    ((takes_objectOf takes).map _).orElse <| ((takes_arrayOf takes).map _).orElse (takes_never 1 _)

theorem takes_valueWithin (depth : Nat) : Takes 1 (valueWithin depth) := by
  induction depth with
  | zero =>
      intro s r ok
      cases ok
  | succ depth ih => exact takes_valueOf ih

theorem run_value (s : List Char) : value.run s = (valueWithin (s.length + 1)).run s := by
  rw [value, run_step]

theorem takes_value : Takes 1 value := by
  intro s r ok
  rw [run_value] at ok
  exact takes_valueWithin (s.length + 1) s r ok

theorem takes_array : Takes 1 array := by
  intro s r ok
  rw [array, run_step] at ok
  exact takes_arrayOf (takes_valueWithin s.length) s r ok

theorem takes_object : Takes 1 object := by
  intro s r ok
  rw [object, run_step] at ok
  exact takes_objectOf (takes_valueWithin s.length) s r ok

theorem takes_document : Takes 1 document := takes_skipWhitespace.keepRight takes_value

theorem agree_entryOf {bound : Nat} {item item' : Unit → Parser Json}
    (agree : AgreeBelow bound (item ()) (item' ())) :
    AgreeBelow (bound + 1) (entryOf item) (entryOf item') := by
  have key : AgreeBelow (bound + 1) (string.keepLeft (symbol ":")) (string.keepLeft (symbol ":")) :=
    AgreeBelow.keepLeft takes_string (agree_string _) (agree_symbol _ ":")
  exact AgreeBelow.bind_beyond takes_key key fun _ => agree.map _

theorem agree_objectOf {bound count : Nat} {item item' : Unit → Parser Json}
    (takes : Takes count (item ())) (agree : AgreeBelow bound (item ()) (item' ())) :
    AgreeBelow (bound + 1) (objectOf item) (objectOf item') := by
  have entries : AgreeBelow bound (entryOf item) (entryOf item') :=
    (agree_entryOf agree).mono (Nat.le_succ bound)
  have separated : AgreeBelow bound (sepBy (entryOf item) (symbol ","))
      (sepBy (entryOf item') (symbol ",")) :=
    AgreeBelow.sepBy (takes_entryOf takes) entries takes_comma (agree_symbol bound ",")
  have enclosed := AgreeBelow.between takes_brace (agree_symbol _ "\x7b")
    ((takes_entryOf takes).sepBy takes_comma) separated (agree_symbol _ "\x7d")
  exact enclosed.map Entries.ofBindings

theorem agree_arrayOf {bound count : Nat} {item item' : Unit → Parser Json}
    (takes : Takes count (item ())) (agree : AgreeBelow bound (item ()) (item' ())) :
    AgreeBelow (bound + 1) (arrayOf item) (arrayOf item') := by
  have separated : AgreeBelow bound (sepBy (item ()) (symbol ",")) (sepBy (item' ()) (symbol ",")) :=
    AgreeBelow.sepBy takes agree takes_comma (agree_symbol bound ",")
  have enclosed := AgreeBelow.between takes_bracket (agree_symbol _ "[")
    (takes.sepBy takes_comma) separated (agree_symbol _ "]")
  exact AgreeBelow.bind takes_nothing (agree_nothing _) fun _ => enclosed

/-- A value asks for nested values on shorter inputs only. -/
theorem agree_valueOf {bound count : Nat} {item item' : Unit → Parser Json}
    (takes : Takes count (item ())) (agree : AgreeBelow bound (item ()) (item' ())) :
    AgreeBelow (bound + 1) (valueOf item) (valueOf item') :=
  ((agree_number _).map _).orElse <| ((agree_boolean _).map _).orElse <|
    ((agree_string _).map _).orElse <| ((agree_objectOf takes agree).map _).orElse <|
      ((agree_arrayOf takes agree).map _).orElse (agree_never _ _)

theorem agree_valueWithin (bound : Nat) {depth depth' : Nat} (deep : bound ≤ depth)
    (deep' : bound ≤ depth') : AgreeBelow bound (valueWithin depth) (valueWithin depth') := by
  induction bound generalizing depth depth' with
  | zero =>
      intro s short
      exact absurd short (Nat.not_lt_zero _)
  | succ bound ih =>
      obtain ⟨depth, rfl⟩ := Nat.exists_eq_add_one_of_ne_zero (Nat.ne_zero_of_lt deep)
      obtain ⟨depth', rfl⟩ := Nat.exists_eq_add_one_of_ne_zero (Nat.ne_zero_of_lt deep')
      have nested : AgreeBelow bound (valueWithin depth) (valueWithin depth') :=
        ih (by omega) (by omega)
      exact agree_valueOf (takes_valueWithin depth) nested

theorem agree_value {bound depth : Nat} (deep : bound ≤ depth) :
    AgreeBelow bound (valueWithin depth) value := by
  intro s short
  rw [run_value]
  exact agree_valueWithin (s.length + 1) (by omega) (Nat.le_refl _) s (Nat.lt_succ_self _)

theorem value_ends (bound : Nat) : AgreeBelow bound value value :=
  (agree_value (Nat.le_refl bound)).symm.trans (agree_value (Nat.le_refl bound))

theorem agree_value_below (bound : Nat) : AgreeBelow bound (valueWithin bound) (value.below bound) :=
  (agree_value (Nat.le_refl bound)).trans (agree_below (value_ends bound))

theorem run_array_of_agree {s : List Char} {item : Unit → Parser Json}
    (agree : AgreeBelow s.length (valueWithin s.length) (item ())) :
    array.run s = (arrayOf item).run s ∧ array.run s ≠ .stalled := by
  rw [array, run_step]
  exact agree_arrayOf (takes_valueWithin s.length) agree s (Nat.lt_succ_self _)

theorem run_object_of_agree {s : List Char} {item : Unit → Parser Json}
    (agree : AgreeBelow s.length (valueWithin s.length) (item ())) :
    object.run s = (objectOf item).run s ∧ object.run s ≠ .stalled := by
  rw [object, run_step]
  exact agree_objectOf (takes_valueWithin s.length) agree s (Nat.lt_succ_self _)

theorem run_value_of_agree {s : List Char} {item : Unit → Parser Json}
    (agree : AgreeBelow s.length (valueWithin s.length) (item ())) :
    value.run s = (valueOf item).run s ∧ value.run s ≠ .stalled := by
  rw [run_value, valueWithin]
  exact agree_valueOf (takes_valueWithin s.length) agree s (Nat.lt_succ_self _)

theorem run_arrayOf (item : Unit → Parser Json) (s : List Char) :
    (arrayOf item).run s = (brackets (sepBy (item ()) (symbol ","))).run s := rfl

theorem run_array_eq (s : List Char) : array.run s = (arrayOf fun _ => value).run s :=
  (run_array_of_agree (agree_value (Nat.le_refl s.length))).1

theorem run_object_eq (s : List Char) : object.run s = (objectOf fun _ => value).run s :=
  (run_object_of_agree (agree_value (Nat.le_refl s.length))).1

theorem run_value_eq (s : List Char) : value.run s = (valueOf fun _ => value).run s :=
  (run_value_of_agree (agree_value (Nat.le_refl s.length))).1

theorem run_document (s : List Char) : document.run s = value.run (s.dropWhile isBlank) := by
  rw [document, run_keepRight, run_skipWhitespace, Outcome.bind]

theorem agree_document (bound : Nat) : AgreeBelow bound document document :=
  AgreeBelow.keepRight takes_skipWhitespace (agree_skipWhitespace bound) (value_ends bound)

theorem comma_value_loopEnds : LoopEnds ((symbol ",").keepRight value) :=
  (takes_comma.keepRight takes_value.zero).loopEnds fun bound =>
    AgreeBelow.keepRight takes_comma (agree_symbol bound ",") (value_ends bound)

theorem comma_entry_loopEnds : LoopEnds ((symbol ",").keepRight (entryOf fun _ => value)) :=
  (takes_comma.keepRight (takes_entryOf takes_value).zero).loopEnds fun bound =>
    AgreeBelow.keepRight takes_comma (agree_symbol bound ",")
      ((agree_entryOf (value_ends bound)).mono (Nat.le_succ bound))

/-- Every run of the grammar ends. The nested values stand on less input than what they are nested in:
`value.below` would come to no end on any other. Every loop takes a character in each round, and a
depth above the length of the text is as good as any larger one. -/
theorem grammar_halts (s : List Char) :
    (number.run s ≠ .stalled ∧ boolean.run s ≠ .stalled ∧ string.run s ≠ .stalled ∧
      array.run s ≠ .stalled ∧ object.run s ≠ .stalled ∧
      (entryOf fun _ => value).run s ≠ .stalled ∧ value.run s ≠ .stalled ∧
      document.run s ≠ .stalled) ∧
    (array.run s = (arrayOf fun _ => value.below s.length).run s ∧
      object.run s = (objectOf fun _ => value.below s.length).run s ∧
      (entryOf fun _ => value).run s = (entryOf fun _ => value.below s.length).run s ∧
      value.run s = (valueOf fun _ => value.below s.length).run s) ∧
    (LoopEnds whitespaceChar ∧ LoopEnds digit ∧ LoopEnds stringCharacter ∧
      LoopEnds ((symbol ",").keepRight value) ∧
      LoopEnds ((symbol ",").keepRight (entryOf fun _ => value))) ∧
    ∀ extra, (valueWithin (s.length + 1 + extra)).run s = value.run s := by
  have within := agree_value_below s.length
  have here : s.length < s.length + 1 := Nat.lt_succ_self _
  have arrays : array.run s = (arrayOf fun _ => value.below s.length).run s ∧ _ :=
    run_array_of_agree within
  have objects : object.run s = (objectOf fun _ => value.below s.length).run s ∧ _ :=
    run_object_of_agree within
  have values : value.run s = (valueOf fun _ => value.below s.length).run s ∧ _ :=
    run_value_of_agree within
  have nested : AgreeBelow (s.length + 1) (entryOf fun _ => value)
      (entryOf fun _ => value.below s.length) := agree_entryOf (agree_below (value_ends s.length))
  have entries := nested s here
  refine ⟨⟨(agree_number _ s here).2, (agree_boolean _ s here).2, (agree_string _ s here).2,
    arrays.2, objects.2, entries.2, values.2, (agree_document _ s here).2⟩,
    ⟨arrays.1, objects.1, entries.1, values.1⟩, ⟨?_, ?_, ?_, ?_, ?_⟩, ?_⟩
  · exact takes_whitespaceChar.loopEnds fun bound => agree_oneChar bound _ _
  · exact takes_digit.loopEnds agree_digit
  · exact takes_stringCharacter.loopEnds agree_stringCharacter
  · exact comma_value_loopEnds
  · exact comma_entry_loopEnds
  · intro extra
    exact (agree_value (Nat.le_add_right _ extra) s here).1

end Descent.Json.Grammar
