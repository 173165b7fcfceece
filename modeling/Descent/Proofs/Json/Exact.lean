import Descent.Proofs.Json.Enclosed
import Descent.Proofs.Json.Quoted

/-!
What a value with a depth reads is sound by induction on the depth, and complete for the texts shorter
than the depth.
-/

namespace Descent.Json.Grammar

open Descent.Parser

theorem numberText_first {text : List Char} {x : Binary64} (number : NumberText text x) :
    ∃ c u, text = c :: u ∧ (c = '-' ∨ c.isDigit = true) := by
  obtain ⟨shape, meaning, blanks⟩ := number
  cases shape with
  | unsigned front back =>
      obtain ⟨d, ds, rfl, digit⟩ := front.first
      exact ⟨d, _, rfl, Or.inr digit⟩
  | negative front back => exact ⟨'-', _, rfl, Or.inl rfl⟩

theorem numberText_fronted : Fronted NumberText := by
  intro text x number
  obtain ⟨c, u, rfl, first⟩ := numberText_first number
  refine ⟨c, u, rfl, ?_⟩
  rcases first with rfl | digit
  · rfl
  · exact not_blank_of_digit digit

theorem stringText_first {text : List Char} {v : String} (shape : StringText text v) :
    ∃ u, text = '"' :: u := by
  cases shape
  exact ⟨_, rfl⟩

theorem stringText_fronted : Fronted StringText := by
  intro text v shape
  obtain ⟨u, rfl⟩ := stringText_first shape
  exact ⟨'"', u, rfl, rfl⟩

theorem entryText_fronted (Value : List Char → Json → Prop) : Fronted (EntryText Value) := by
  rintro _ _ ⟨name, blanks, bound⟩
  obtain ⟨c, u, rfl, solid⟩ := stringText_fronted _ _ name
  exact ⟨c, _, rfl, solid⟩

theorem enclosedText_first {α : Type} {opening closing : Char} {Element : List Char → α → Prop}
    {text : List Char} {xs : List α} (enclosed : EnclosedText opening closing Element text xs) :
    ∃ u, text = opening :: u := by
  cases enclosed with
  | empty inside behind => exact ⟨_, rfl⟩
  | filled inside elements behind => exact ⟨_, rfl⟩

theorem valueText_fronted : Fronted ValueText := by
  intro text v shape
  cases shape with
  | number shape => exact numberText_fronted _ _ shape
  | boolean shape =>
      cases shape with
      | yes blanks => exact ⟨'t', _, rfl, rfl⟩
      | no blanks => exact ⟨'f', _, rfl, rfl⟩
  | string shape => exact stringText_fronted _ _ shape
  | array enclosed =>
      obtain ⟨u, rfl⟩ := enclosedText_first enclosed
      exact ⟨'[', u, rfl, rfl⟩
  | object enclosed last =>
      obtain ⟨u, rfl⟩ := enclosedText_first enclosed
      exact ⟨'\x7b', u, rfl, rfl⟩

theorem entryOf_reads {item : Unit → Parser Json} (reads : Reads (item ()) ValueText) :
    Reads (entryOf item) (EntryText ValueText) := by
  intro s r ok
  simp only [entryOf, run_bind, run_keepLeft, run_map, Outcome.bind_eq_ok_iff,
    Outcome.map_eq_ok_iff, run_symbol_eq_ok_iff] at ok
  obtain ⟨_, ⟨key, named, _, ⟨t, colon, rfl⟩, rfl⟩, value, valued, rfl⟩ := ok
  obtain ⟨k, split, name⟩ := string_reads s key named
  obtain ⟨text, rest, shape⟩ := reads _ value valued
  refine ⟨k ++ ':' :: (t.takeWhile isBlank ++ text), ?_, .mk name (blanks_takeWhile t) shape⟩
  calc s = k ++ ':' :: t := by
        rw [split, colon]
        rfl
    _ = k ++ ':' :: (t.takeWhile isBlank ++ (text ++ value.rest)) := by
        rw [← rest, List.takeWhile_append_dropWhile]
    _ = _ := by
        simp only [List.append_assoc, List.cons_append, Parsed.map]

theorem valueOf_reads {item : Unit → Parser Json} (reads : Reads (item ()) ValueText) :
    Reads (valueOf item) ValueText := by
  intro s r ok
  obtain ⟨p, member, ok⟩ := exists_of_run_choice ok
  simp only [List.mem_cons, List.not_mem_nil, or_false] at member
  rcases member with rfl | rfl | rfl | rfl | rfl
  all_goals
    rw [run_map, Outcome.map_eq_ok_iff] at ok
    obtain ⟨q, read, rfl⟩ := ok
  · obtain ⟨text, split, shape⟩ := number_reads s q read
    exact ⟨text, split, .number shape⟩
  · obtain ⟨text, split, shape⟩ := boolean_reads s q read
    exact ⟨text, split, .boolean shape⟩
  · obtain ⟨text, split, shape⟩ := string_reads s q read
    exact ⟨text, split, .string shape⟩
  · rw [objectOf, run_map, Outcome.map_eq_ok_iff] at read
    obtain ⟨bindings, read, rfl⟩ := read
    obtain ⟨text, split, shape⟩ := between_reads rfl rfl (entryOf_reads reads) s bindings read
    exact ⟨text, split, .object shape (Entries.collects_ofBindings bindings.value)⟩
  · rw [run_arrayOf] at read
    obtain ⟨text, split, shape⟩ := between_reads rfl rfl reads s q read
    exact ⟨text, split, .array shape⟩

theorem valueWithin_reads (depth : Nat) : Reads (valueWithin depth) ValueText := by
  induction depth with
  | zero =>
      intro s r ok
      cases ok
  | succ depth ih => exact valueOf_reads ih

theorem value_reads : Reads value ValueText := by
  intro s r ok
  rw [run_value] at ok
  exact valueWithin_reads (s.length + 1) s r ok

theorem entryOf_accepts {bound : Nat} {item : Unit → Parser Json}
    (accepts : Accepts bound (item ()) ValueText) :
    Accepts bound (entryOf item) (EntryText ValueText) := by
  rintro _ _ t @⟨k, w, text, key, v, name, blanks, shape⟩ apart short
  simp only [List.length_append, List.length_cons] at short
  have named := run_string name (':' :: (w ++ (text ++ t)))
  have front := valueText_fronted.dropWhile shape blanks t
  have marked := run_symbol ":" (w ++ (text ++ t))
  have value := accepts text v t shape apart (by omega)
  rw [dropWhile_solid rfl] at named
  rw [front] at marked
  rw [List.append_assoc, List.cons_append, List.append_assoc, entryOf, run_bind, run_keepLeft, named]
  change ((Outcome.map _ ((symbol ":").run (":".toList ++ (w ++ (text ++ t))))).bind _) = _
  rw [marked]
  simp only [Outcome.map, Outcome.bind, run_map, value, Parsed.map]

theorem closing_bracket : Closing ']' := ⟨rfl, by decide, rfl, by decide⟩

theorem closing_brace : Closing '\x7d' := ⟨rfl, by decide, rfl, by decide⟩

theorem item_refuses {depth : Nat} {c : Char} (t : List Char)
    (refuses : Refuses (valueOf fun _ => valueWithin (depth - 1)) (c :: t)) (positive : 0 < depth) :
    Refuses (valueWithin depth) (c :: t) := by
  cases depth with
  | zero => cases positive
  | succ depth => exact refuses

theorem arrayOf_accepts {depth : Nat} (accepts : Accepts depth (valueWithin depth) ValueText)
    {text t : List Char} {items : List Json} (shape : EnclosedText '[' ']' ValueText text items)
    (short : text.length ≤ depth) :
    (arrayOf fun _ => valueWithin depth).run (text ++ t) = .ok ⟨items, t.dropWhile isBlank⟩ := by
  have positive : 0 < depth := by
    obtain ⟨u, rfl⟩ := enclosedText_first shape
    exact Nat.lt_of_lt_of_le (Nat.succ_pos _) short
  have refuses : ∀ u, Refuses (valueWithin depth) (']' :: u) := fun u =>
    item_refuses u ⟨_, rfl⟩ positive
  rw [run_arrayOf]
  exact run_between_of_enclosed rfl rfl closing_bracket (takes_valueWithin depth).zero refuses
    accepts valueText_fronted shape short

theorem objectOf_accepts {depth : Nat} (accepts : Accepts depth (valueWithin depth) ValueText)
    {text t : List Char} {bindings : List (String × Json)}
    (shape : EnclosedText '\x7b' '\x7d' (EntryText ValueText) text bindings)
    (short : text.length ≤ depth) :
    (objectOf fun _ => valueWithin depth).run (text ++ t) =
      .ok ⟨Entries.ofBindings bindings, t.dropWhile isBlank⟩ := by
  have takes : Takes 0 (entryOf fun _ => valueWithin depth) :=
    (takes_entryOf (takes_valueWithin depth)).zero
  have refuses : ∀ u, Refuses (entryOf fun _ => valueWithin depth) ('\x7d' :: u) :=
    fun u => ⟨_, rfl⟩
  have read : (braces (sepBy (entryOf fun _ => valueWithin depth) (symbol ","))).run (text ++ t) =
      .ok ⟨bindings, t.dropWhile isBlank⟩ :=
    run_between_of_enclosed rfl rfl closing_brace takes refuses (entryOf_accepts accepts)
      (entryText_fronted ValueText) shape short
  rw [objectOf, run_map, read]
  rfl

/-- The productions in front of the right one refuse its first character. -/
theorem run_valueOf_of_valueText {depth : Nat} {text t : List Char} {v : Json}
    (accepts : Accepts depth (valueWithin depth) ValueText) (shape : ValueText text v)
    (apart : ∀ x, v = .number x → Apart t) (within : text.length ≤ depth) :
    (valueOf fun _ => valueWithin depth).run (text ++ t) = .ok ⟨v, t.dropWhile isBlank⟩ := by
  rw [valueOf, choice_cons, choice_cons, choice_cons, choice_cons, choice_cons]
  -- Behind the numbers every kind has a fixed first character, so a refusal is a computation.
  cases shape with
  | number shape =>
      rw [Parser.run_orElse, run_map, run_number shape (apart _ rfl)]
      rfl
  | boolean shape =>
      have read := run_boolean shape t
      have number : Refuses (Grammar.number.map Json.number) (text ++ t) := by
        cases shape with
        | yes blanks => exact ⟨_, rfl⟩
        | no blanks => exact ⟨_, rfl⟩
      rw [number.run_orElse, Parser.run_orElse, run_map, read]
      rfl
  | string shape =>
      have read := run_string shape t
      obtain ⟨u, rfl⟩ := stringText_first shape
      have number : Refuses (Grammar.number.map Json.number) ('"' :: u ++ t) := ⟨_, rfl⟩
      have boolean : Refuses (Grammar.boolean.map Json.boolean) ('"' :: u ++ t) := ⟨_, rfl⟩
      rw [number.run_orElse, boolean.run_orElse, Parser.run_orElse, run_map, read]
      rfl
  | object shape last =>
      have read := objectOf_accepts (t := t) accepts shape within
      obtain ⟨u, rfl⟩ := enclosedText_first shape
      have number : Refuses (Grammar.number.map Json.number) ('\x7b' :: u ++ t) := ⟨_, rfl⟩
      have boolean : Refuses (Grammar.boolean.map Json.boolean) ('\x7b' :: u ++ t) := ⟨_, rfl⟩
      have string : Refuses (Grammar.string.map Json.string) ('\x7b' :: u ++ t) := ⟨_, rfl⟩
      rw [number.run_orElse, boolean.run_orElse, string.run_orElse, Parser.run_orElse, run_map, read,
        last.eq_ofBindings]
      rfl
  | array shape =>
      have read := arrayOf_accepts (t := t) accepts shape within
      obtain ⟨u, rfl⟩ := enclosedText_first shape
      have number : Refuses (Grammar.number.map Json.number) ('[' :: u ++ t) := ⟨_, rfl⟩
      have boolean : Refuses (Grammar.boolean.map Json.boolean) ('[' :: u ++ t) := ⟨_, rfl⟩
      have string : Refuses (Grammar.string.map Json.string) ('[' :: u ++ t) := ⟨_, rfl⟩
      have object : Refuses ((objectOf fun _ => valueWithin depth).map Json.object)
          ('[' :: u ++ t) := ⟨_, rfl⟩
      rw [number.run_orElse, boolean.run_orElse, string.run_orElse, object.run_orElse,
        Parser.run_orElse, run_map, read]
      rfl

theorem valueWithin_accepts (depth : Nat) : Accepts depth (valueWithin depth) ValueText := by
  induction depth with
  | zero =>
      intro text v t shape apart short
      exact absurd short (Nat.not_lt_zero _)
  | succ depth ih =>
      intro text v t shape apart short
      exact run_valueOf_of_valueText ih shape (fun _ _ => apart) (Nat.le_of_lt_succ short)

/-- Whatever follows it, a value is read to its end; a number wants to be set apart. -/
theorem run_value_of_valueText {text : List Char} {v : Json} {t : List Char}
    (shape : ValueText text v) (apart : ∀ x, v = .number x → Apart t) :
    value.run (text ++ t) = .ok ⟨v, t.dropWhile isBlank⟩ := by
  rw [run_value, valueWithin]
  refine run_valueOf_of_valueText (valueWithin_accepts _) shape apart ?_
  rw [List.length_append]
  exact Nat.le_add_right _ _

theorem documentText_of_parse {s : List Char} {v : Json} (ok : document.parse s = .ok v) :
    DocumentText s v := by
  rw [parse_eq, run_document, Outcome.bind_eq_ok_iff] at ok
  obtain ⟨⟨value, rest⟩, read, ended⟩ := ok
  obtain ⟨text, split, shape⟩ := value_reads _ _ read
  cases rest with
  | cons c rest => cases ended
  | nil =>
      cases ended
      rw [List.append_nil] at split
      rw [← List.takeWhile_append_dropWhile (p := isBlank) (l := s), split]
      exact .mk (blanks_takeWhile s) shape

theorem parse_of_documentText {s : List Char} {v : Json} (shape : DocumentText s v) :
    document.parse s = .ok v := by
  obtain @⟨w, text, _, blanks, value⟩ := shape
  have front := valueText_fronted.dropWhile value blanks []
  have read := run_value_of_valueText value fun _ _ => apart_nil
  rw [List.append_nil] at front
  rw [List.append_nil] at read
  rw [parse_eq, run_document, front, read]
  rfl

end Descent.Json.Grammar

namespace Descent.Json

/-- A text is read with a meaning exactly when the grammar derives it with that meaning. The grammar
derives no text with two meanings, and no numeral is without one. -/
theorem read_eq_ok_iff_documentText (text : String) :
    (∀ v, read text = .ok v ↔ DocumentText text.toList v) ∧
      (∀ v v', DocumentText text.toList v → DocumentText text.toList v' → v = v') ∧
      (NumeralText text.toList → ∃ x, DocumentText text.toList (.number x)) := by
  have exact : ∀ v, read text = .ok v ↔ DocumentText text.toList v := fun v =>
    ⟨Grammar.documentText_of_parse, Grammar.parse_of_documentText⟩
  refine ⟨exact, ?_, ?_⟩
  · intro v v' derived derived'
    have first := (exact v).mpr derived
    rw [(exact v').mpr derived'] at first
    cases first
    rfl
  · intro shape
    obtain ⟨x, meaning⟩ := shape.exists_meaning
    exact ⟨x, .mk blanks_nil (.number (shape.numberText meaning))⟩

end Descent.Json
