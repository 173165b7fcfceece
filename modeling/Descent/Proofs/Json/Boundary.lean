import Descent.Proofs.Json.Halting

namespace Descent.Parser

variable {α β γ : Type}

/-- No success leaves a blank in front. -/
def Trims (p : Parser α) : Prop :=
  ∀ s r, p.run s = .ok r → ∀ c ∈ r.rest.head?, isBlank c = false

theorem Trims.of_run_eq {p q : Parser α} (same : p.run = q.run) (trims : Trims q) : Trims p := by
  intro s r ok
  rw [same] at ok
  exact trims s r ok

theorem Trims.map {p : Parser α} (trims : Trims p) (f : α → β) : Trims (p.map f) := by
  intro s r ok
  rw [run_map, Outcome.map_eq_ok_iff] at ok
  obtain ⟨q, read, rfl⟩ := ok
  exact trims s q read

theorem Trims.replace {p : Parser α} (trims : Trims p) (value : β) : Trims (p.replace value) := by
  rw [replace_eq_map]
  exact trims.map fun _ => value

theorem Trims.bind {p : Parser α} {f : α → Parser β} (trims : ∀ a, Trims (f a)) :
    Trims (p.bind f) := by
  intro s r ok
  rw [run_bind, Outcome.bind_eq_ok_iff] at ok
  obtain ⟨q, _, later⟩ := ok
  exact trims q.value q.rest r later

theorem Trims.keepLeft {p : Parser α} {q : Parser β} (trims : Trims q) : Trims (p.keepLeft q) := by
  rw [keepLeft_eq_bind]
  exact .bind fun a => trims.map fun _ => a

theorem Trims.between {opening : Parser α} {closing : Parser β} {p : Parser γ}
    (trims : Trims closing) : Trims (between opening closing p) := trims.keepLeft

theorem Trims.choice {ps : List (Parser α)} (description : String) (each : ∀ p ∈ ps, Trims p) :
    Trims (choice description ps) := by
  intro s r ok
  obtain ⟨p, member, ok⟩ := exists_of_run_choice ok
  exact each p member s r ok

theorem head?_dropWhile_blank (s : List Char) :
    ∀ c ∈ (s.dropWhile isBlank).head?, isBlank c = false := by
  intro c first
  have stop := List.head?_dropWhile_not isBlank s
  rw [Option.mem_def.mp first] at stop
  exact stop

theorem trims_skipWhitespace : Trims skipWhitespace := by
  intro s r ok
  rw [run_skipWhitespace] at ok
  cases ok
  exact head?_dropWhile_blank s

theorem trims_symbol (text : String) : Trims (symbol text) := by
  intro s r ok
  obtain ⟨t, _, rfl⟩ := run_symbol_eq_ok_iff.mp ok
  exact head?_dropWhile_blank t

end Descent.Parser

namespace Descent.Json.Grammar

open Descent.Parser

theorem trims_number : Trims number := trims_skipWhitespace.keepLeft

theorem trims_boolean : Trims boolean := by
  apply Trims.choice
  intro p member
  simp only [List.mem_cons, List.not_mem_nil, or_false] at member
  rcases member with rfl | rfl
  · exact (trims_symbol "true").replace true
  · exact (trims_symbol "false").replace false

theorem trims_string : Trims string := trims_skipWhitespace.keepLeft

theorem trims_arrayOf (item : Unit → Parser Json) : Trims (arrayOf item) :=
  .bind fun _ => (trims_symbol "]").between

theorem trims_objectOf (item : Unit → Parser Json) : Trims (objectOf item) :=
  (trims_symbol "\x7d").between.map Entries.ofBindings

theorem trims_valueOf (item : Unit → Parser Json) : Trims (valueOf item) := by
  apply Trims.choice
  intro p member
  simp only [List.mem_cons, List.not_mem_nil, or_false] at member
  rcases member with rfl | rfl | rfl | rfl | rfl
  · exact trims_number.map Json.number
  · exact trims_boolean.map Json.boolean
  · exact trims_string.map Json.string
  · exact (trims_objectOf item).map Json.object
  · exact (trims_arrayOf item).map Json.array

theorem trims_value : Trims value := by
  intro s r ok
  rw [run_value, valueWithin] at ok
  exact trims_valueOf _ s r ok

end Descent.Json.Grammar
