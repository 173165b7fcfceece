import Descent.Proofs.Json.Exact

namespace Descent.Json.Grammar

open Descent.Parser

variable {α : Type}

/-- Whatever is put behind `s`, the same is read from it, and the same is left but for blanks. -/
def StableOn (p : Parser α) (s : List Char) : Prop :=
  ∀ r t, p.run s = .ok r → p.run (s ++ t) = .ok ⟨r.value, (r.rest ++ t).dropWhile isBlank⟩

theorem stableOn_of_reads {p : Parser α} {Text : List Char → α → Prop} (reads : Reads p Text)
    (complete : ∀ text a t, Text text a → p.run (text ++ t) = .ok ⟨a, t.dropWhile isBlank⟩)
    (s : List Char) : StableOn p s := by
  intro r t ok
  obtain ⟨text, split, shape⟩ := reads s r ok
  rw [split, List.append_assoc]
  exact complete text r.value (r.rest ++ t) shape

theorem array_reads : Reads array fun text items => ValueText text (.array items) := by
  intro s r ok
  rw [array, run_step, run_arrayOf] at ok
  obtain ⟨text, split, shape⟩ := between_reads rfl rfl (valueWithin_reads s.length) s r ok
  exact ⟨text, split, .array shape⟩

theorem run_array {text : List Char} {items : List Json} (shape : ValueText text (.array items))
    (t : List Char) : array.run (text ++ t) = .ok ⟨items, t.dropWhile isBlank⟩ := by
  cases shape with
  | array enclosed =>
      rw [array, run_step]
      refine arrayOf_accepts (valueWithin_accepts _) enclosed ?_
      rw [List.length_append]
      exact Nat.le_add_right _ _

theorem object_reads : Reads object fun text entries => ValueText text (.object entries) := by
  intro s r ok
  rw [object, run_step, objectOf, run_map, Outcome.map_eq_ok_iff] at ok
  obtain ⟨bindings, read, rfl⟩ := ok
  obtain ⟨text, split, shape⟩ :=
    between_reads rfl rfl (entryOf_reads (valueWithin_reads s.length)) s bindings read
  exact ⟨text, split, .object shape (Entries.collects_ofBindings bindings.value)⟩

theorem run_object {text : List Char} {entries : Entries Json}
    (shape : ValueText text (.object entries)) (t : List Char) :
    object.run (text ++ t) = .ok ⟨entries, t.dropWhile isBlank⟩ := by
  cases shape with
  | object enclosed last =>
      rw [object, run_step, last.eq_ofBindings]
      refine objectOf_accepts (valueWithin_accepts _) enclosed ?_
      rw [List.length_append]
      exact Nat.le_add_right _ _

theorem value_stableOn {s : List Char} (start : ∀ c ∈ s.head?, c ≠ '-' ∧ c.isDigit = false) :
    StableOn value s := by
  intro r t ok
  obtain ⟨text, split, shape⟩ := value_reads s r ok
  rw [split, List.append_assoc]
  -- Only a number asks for something of the text behind it, and none starts like this.
  refine run_value_of_valueText shape ?_
  intro x number
  rw [number] at shape
  obtain ⟨numeral⟩ := shape
  obtain ⟨c, u, rfl, first⟩ := numberText_first numeral
  obtain ⟨unsigned, notDigit⟩ := start c (by rw [split]; rfl)
  rcases first with minus | digit
  · exact absurd minus unsigned
  · rw [digit] at notDigit
    cases notDigit

/-- No text behind a complete boolean, string, array or object changes how it is read, however deeply
it nests numbers. The same goes for a value that does not start like a number. -/
theorem productions_stableOn (s : List Char) :
    StableOn boolean s ∧ StableOn string s ∧ StableOn array s ∧ StableOn object s ∧
      ((∀ c ∈ s.head?, c ≠ '-' ∧ c.isDigit = false) → StableOn value s) :=
  ⟨stableOn_of_reads boolean_reads (fun _ _ t shape => run_boolean shape t) s,
    stableOn_of_reads string_reads (fun _ _ t shape => run_string shape t) s,
    stableOn_of_reads array_reads (fun _ _ t shape => run_array shape t) s,
    stableOn_of_reads object_reads (fun _ _ t shape => run_object shape t) s,
    value_stableOn⟩

/-- The point and the digit would prolong the number, were it not for the bracket. -/
theorem productions_stableOn_number_in_array :
    let s := "[1 ]".toList
    let v := Json.array [.number ⟨false, 0x3ff0000000000000⟩]
    (∀ c ∈ s.head?, c ≠ '-' ∧ c.isDigit = false) ∧ value.run s = .ok ⟨v, []⟩ ∧
      value.run (s ++ " .5".toList) = .ok ⟨v, ".5".toList⟩ := by
  intro s v
  have start : ∀ c ∈ s.head?, c ≠ '-' ∧ c.isDigit = false := by
    intro c first
    obtain rfl : '[' = c := Option.some.inj first
    exact ⟨by decide, by decide⟩
  have shape : NumeralText ['1'] := .unsigned (.leading rfl (by decide) (List.forall_mem_nil _)) .absent
  have number : NumberText ['1', ' '] ⟨false, 0x3ff0000000000000⟩ :=
    .mk shape (by decide +kernel) (blanks_takeWhile [' '])
  have items : SeparatedText ValueText ['1', ' '] [.number ⟨false, 0x3ff0000000000000⟩] :=
    .one (.number number)
  have text : ValueText s v := .array (.filled blanks_nil items blanks_nil)
  have ok := run_value_of_valueText text fun _ _ => apart_nil
  rw [List.append_nil] at ok
  exact ⟨start, ok, (productions_stableOn s).2.2.2.2 start _ " .5".toList ok⟩

end Descent.Json.Grammar
