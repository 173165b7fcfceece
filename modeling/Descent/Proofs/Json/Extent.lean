import Descent.Proofs.Json.Boundary
import Descent.Proofs.Json.Delimited

namespace Descent.Json.Grammar

open Descent.Parser

variable {α : Type}

/-- What was taken off `s` to leave `rest` starts on a solid character, and so does `rest`, if it is not
empty. -/
structure Extent (s rest : List Char) : Prop where
  first : ∃ c t, s = c :: t ∧ isBlank c = false
  suffix : rest <:+ s
  shorter : rest.length < s.length
  solid : ∀ c ∈ rest.head?, isBlank c = false

theorem extent_of_reads {p : Parser α} {Text : List Char → α → Prop} (reads : Reads p Text)
    (value : ∀ text a, Text text a → ∃ v, ValueText text v) (trims : Trims p) (s : List Char)
    (r : Parsed α) (ok : p.run s = .ok r) : Extent s r.rest := by
  obtain ⟨text, split, shape⟩ := reads s r ok
  obtain ⟨v, shape⟩ := value text r.value shape
  obtain ⟨c, t, rfl, solid⟩ := valueText_fronted text v shape
  have ends : ∀ d ∈ r.rest.head?, isBlank d = false := trims s r ok
  rw [split]
  constructor
  · exact ⟨c, t ++ r.rest, rfl, solid⟩
  · exact List.suffix_append (c :: t) r.rest
  · rw [List.length_append, List.length_cons]
    omega
  · exact ends

theorem trims_array : Trims array := .of_run_eq (funext run_array_eq) (trims_arrayOf _)

theorem trims_object : Trims object := .of_run_eq (funext run_object_eq) (trims_objectOf _)

/-- A production reads nothing from a text that starts with a blank. From any other it takes at least
one character, and of the blanks behind its token it takes all. -/
theorem productions_extent (s : List Char) :
    (∀ r, number.run s = .ok r → Extent s r.rest) ∧
    (∀ r, boolean.run s = .ok r → Extent s r.rest) ∧
    (∀ r, string.run s = .ok r → Extent s r.rest) ∧
    (∀ r, array.run s = .ok r → Extent s r.rest) ∧
    (∀ r, object.run s = .ok r → Extent s r.rest) ∧
    ∀ r, value.run s = .ok r → Extent s r.rest :=
  ⟨extent_of_reads number_reads (fun _ _ shape => ⟨_, .number shape⟩) trims_number s,
    extent_of_reads boolean_reads (fun _ _ shape => ⟨_, .boolean shape⟩) trims_boolean s,
    extent_of_reads string_reads (fun _ _ shape => ⟨_, .string shape⟩) trims_string s,
    extent_of_reads array_reads (fun _ _ shape => ⟨_, shape⟩) trims_array s,
    extent_of_reads object_reads (fun _ _ shape => ⟨_, shape⟩) trims_object s,
    extent_of_reads value_reads (fun _ v shape => ⟨v, shape⟩) trims_value s⟩

theorem productions_extent_of_array :
    let s := "[ true ,\"]\" ] \n\u3000x ".toList
    array.run s = .ok ⟨[.boolean true, .string "]"], "x ".toList⟩ ∧ Extent s "x ".toList := by
  intro s
  have ok : array.run s = .ok ⟨[.boolean true, .string "]"], "x ".toList⟩ := rfl
  exact ⟨ok, (productions_extent s).2.2.2.1 _ ok⟩

end Descent.Json.Grammar
