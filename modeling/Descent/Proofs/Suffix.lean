import Descent.Proofs.Json.Halting

namespace Descent.Parser

/-- Composed by the operations of the library and the productions of the grammar, from steps of any
making that leave an end of their input. -/
inductive Composed : {α : Type} → Parser α → Prop
  | step {α : Type} {run : List Char → Outcome (Parsed α)}
      (leaves : ∀ s r, run s = .ok r → r.rest <:+ s) : Composed (step run)
  | always {α : Type} (value : α) : Composed (always value)
  | never {α : Type} (error : Mismatch) : Composed (never error : Parser α)
  | anyChar : Composed anyChar
  | endOfInput : Composed endOfInput
  | nothing : Composed nothing
  | bind {α β : Type} {p : Parser α} {f : α → Parser β} (first : Composed p)
      (later : ∀ a, Composed (f a)) : Composed (p.bind f)
  | orElse {α : Type} {p q : Parser α} (left : Composed p) (right : Composed q) :
      Composed (p.orElse q)
  | map {α β : Type} {p : Parser α} (f : α → β) (operand : Composed p) : Composed (p.map f)
  | replace {α β : Type} {p : Parser α} (value : β) (operand : Composed p) :
      Composed (p.replace value)
  | keepRight {α β : Type} {p : Parser α} {q : Parser β} (left : Composed p) (right : Composed q) :
      Composed (p.keepRight q)
  | keepLeft {α β : Type} {p : Parser α} {q : Parser β} (left : Composed p) (right : Composed q) :
      Composed (p.keepLeft q)
  | pair {α β : Type} {p : Parser α} {q : Parser β} (left : Composed p) (right : Composed q) :
      Composed (p.pair q)
  | label {α : Type} {p : Parser α} (name : String) (operand : Composed p) : Composed (p.label name)
  | satisfy {α : Type} {p : Parser α} (accepts : α → Bool) (error : α → Mismatch)
      (operand : Composed p) : Composed (p.satisfy accepts error)
  | character (c : Char) : Composed (character c)
  | whitespaceChar : Composed whitespaceChar
  | whitespace : Composed whitespace
  | skipWhitespace : Composed skipWhitespace
  | digit : Composed digit
  | literal (text : String) : Composed (literal text)
  | symbol (text : String) : Composed (symbol text)
  | choice {α : Type} {ps : List (Parser α)} (description : String) (each : ∀ p ∈ ps, Composed p) :
      Composed (choice description ps)
  | sequence {α : Type} {ps : List (Parser α)} (each : ∀ p ∈ ps, Composed p) :
      Composed (sequence ps)
  | ignore {α : Type} {p : Parser α} (operand : Composed p) : Composed p.ignore
  | optional {α : Type} {p : Parser α} (default : α) (operand : Composed p) :
      Composed (p.optional default)
  | many {α : Type} {p : Parser α} (operand : Composed p) : Composed (many p)
  | many1 {α : Type} {p : Parser α} (operand : Composed p) : Composed (many1 p)
  | sepBy1 {α β : Type} {p : Parser α} {q : Parser β} (operand : Composed p)
      (separator : Composed q) : Composed (sepBy1 p q)
  | sepBy {α β : Type} {p : Parser α} {q : Parser β} (operand : Composed p)
      (separator : Composed q) : Composed (sepBy p q)
  | between {α β γ : Type} {p : Parser α} {q : Parser β} {t : Parser γ} (opening : Composed p)
      (closing : Composed q) (operand : Composed t) : Composed (between p q t)
  | brackets {α : Type} {p : Parser α} (operand : Composed p) : Composed (brackets p)
  | braces {α : Type} {p : Parser α} (operand : Composed p) : Composed (braces p)
  | quotes {α : Type} {p : Parser α} (operand : Composed p) : Composed (quotes p)
  | number : Composed Json.Grammar.number
  | boolean : Composed Json.Grammar.boolean
  | string : Composed Json.Grammar.string
  | array : Composed Json.Grammar.array
  | object : Composed Json.Grammar.object
  | value : Composed Json.Grammar.value
  | document : Composed Json.Grammar.document

variable {α : Type}

theorem takes_zero_iff {p : Parser α} : Takes 0 p ↔ ∀ s r, p.run s = .ok r → r.rest <:+ s := by
  constructor
  · intro takes s r ok
    obtain ⟨taken, split, _⟩ := takes s r ok
    exact ⟨taken, split.symm⟩
  · intro leaves s r ok
    obtain ⟨taken, split⟩ := leaves s r ok
    exact ⟨taken, split.symm, Nat.zero_le _⟩

theorem takes_between_symbols (left right : String) {p : Parser α} (takes : Takes 0 p) :
    Takes 0 (between (symbol left) (symbol right) p) :=
  (takes_symbol left).zero.between takes (takes_symbol right).zero

theorem takes_of_composed {p : Parser α} (composed : Composed p) : Takes 0 p := by
  -- Leaving an end of the input is taking at least nothing from its front.
  induction composed with
  | step leaves => exact takes_zero_iff.mpr leaves
  | always value => exact takes_always value
  | never error => exact takes_never 0 error
  | anyChar => exact takes_anyChar.zero
  | endOfInput => exact takes_endOfInput
  | nothing => exact takes_nothing
  | bind _ _ first later => exact first.bind later
  | orElse _ _ left right => exact left.orElse right
  | map f _ operand => exact operand.map f
  | replace value _ operand => exact operand.replace value
  | keepRight _ _ left right => exact left.keepRight right
  | keepLeft _ _ left right => exact left.keepLeft right
  | pair _ _ left right => exact left.pair right
  | label name _ operand => exact operand.label name
  | satisfy accepts error _ operand => exact operand.satisfy accepts error
  | character c => exact (takes_character c).zero
  | whitespaceChar => exact takes_whitespaceChar.zero
  | whitespace => exact takes_whitespaceChar.many
  | skipWhitespace => exact takes_skipWhitespace
  | digit => exact takes_digit.zero
  | literal text => exact (takes_literal text).zero
  | symbol text => exact (takes_symbol text).zero
  | choice description _ each => exact Takes.choice description each
  | sequence _ each => exact Takes.sequence each
  | ignore _ operand => exact operand.replace ()
  | optional default _ operand => exact operand.optional default
  | many _ operand => exact operand.many
  | many1 _ operand => exact operand.many1
  | sepBy1 _ _ operand separator => exact operand.sepBy1 separator
  | sepBy _ _ operand separator => exact operand.sepBy separator
  | between _ _ _ opening closing operand => exact opening.between operand closing
  | brackets _ operand => exact takes_between_symbols _ _ operand
  | braces _ operand => exact takes_between_symbols _ _ operand
  | quotes _ operand => exact takes_between_symbols _ _ operand
  | number => exact Json.Grammar.takes_number.zero
  | boolean => exact Json.Grammar.takes_boolean.zero
  | string => exact Json.Grammar.takes_string.zero
  | array => exact Json.Grammar.takes_array.zero
  | object => exact Json.Grammar.takes_object.zero
  | value => exact Json.Grammar.takes_value.zero
  | document => exact Json.Grammar.takes_document.zero

/-- Whatever alternatives were tried and given up on the way, a success leaves an end of the input. -/
theorem rest_suffix_of_composed {p : Parser α} (composed : Composed p) (s : List Char)
    (r : Parsed α) (ok : p.run s = .ok r) : r.rest <:+ s :=
  takes_zero_iff.mp (takes_of_composed composed) s r ok

theorem rest_suffix_of_word :
    let word : Parser (List Char) := step fun s =>
      .ok ⟨s.takeWhile Char.isAlpha, s.dropWhile Char.isAlpha⟩
    let marked := (word.keepLeft (character '!')).orElse (word.keepLeft skipWhitespace)
    let p := marked.pair (many Json.Grammar.boolean)
    Composed p ∧
      p.run "ab true false]".toList = .ok ⟨(['a', 'b'], [true, false]), [']']⟩ ∧
      [']'] <:+ "ab true false]".toList := by
  intro word marked p
  have written : Composed word := by
    refine .step ?_
    intro s r ok
    cases ok
    exact List.dropWhile_suffix Char.isAlpha
  have either : Composed marked :=
    .orElse (.keepLeft written (.character '!')) (.keepLeft written .skipWhitespace)
  have composed : Composed p := .pair either (.many .boolean)
  have ok : p.run "ab true false]".toList = .ok ⟨(['a', 'b'], [true, false]), [']']⟩ := by
    decide +kernel
  exact ⟨composed, ok, rest_suffix_of_composed composed _ _ ok⟩

end Descent.Parser
