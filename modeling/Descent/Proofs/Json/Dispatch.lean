import Descent.Proofs.Algebra
import Descent.Proofs.Json.Failure

namespace Descent.Parser

variable {α : Type}

/-- Where all others refuse, it does not matter how many they are and where they stand. -/
theorem run_choice_of_mem (description : String) {ps : List (Parser α)} {p : Parser α}
    {s : List Char} (member : p ∈ ps) (others : ∀ q ∈ ps, q = p ∨ Refuses q s) :
    (choice description ps).run s = (p.run s).mapError fun _ => ⟨description, "no match"⟩ := by
  by_cases refuses : Refuses p s
  · have all : ∀ q ∈ ps, Refuses q s := by
      intro q listed
      rcases others q listed with rfl | refused
      · exact refuses
      · exact refused
    rw [run_choice_eq_fail_iff.mpr ⟨rfl, all⟩]
    obtain ⟨error, failed⟩ := refuses
    rw [failed]
    rfl
  · have kept : (p.run s).mapError (fun _ => ⟨description, "no match"⟩) = p.run s := by
      cases ran : p.run s with
      | ok r => rfl
      | fail error => exact absurd ⟨error, ran⟩ refuses
      | stalled => rfl
    rw [kept]
    induction ps with
    | nil => cases member
    | cons q ps ih =>
        obtain ⟨first, others⟩ := List.forall_mem_cons.mp others
        rw [choice_cons]
        rcases first with rfl | refused
        · exact run_orElse_of_not_refuses refuses _
        · have behind : p ∈ ps := by
            rcases List.mem_cons.mp member with rfl | behind
            · exact absurd refused refuses
            · exact behind
          rw [refused.run_orElse]
          exact ih behind others

end Descent.Parser

namespace Descent.Json.Grammar

open Descent.Parser

theorem number_refuses {s : List Char} (other : ∀ c ∈ s.head?, c ≠ '-' ∧ c.isDigit = false) :
    Refuses number s := by
  have same : unsigned s = s := unsigned_of_other fun c first => (other c first).1
  refine ⟨digitMismatch s, run_number_eq_fail_iff.mpr ?_⟩
  rw [same]
  exact run_digit_eq_fail_iff.mpr ⟨rfl, fun c first => (other c first).2⟩

theorem boolean_refuses {s : List Char} (other : ∀ c ∈ s.head?, c ≠ 't' ∧ c ≠ 'f') :
    Refuses boolean s :=
  ⟨_, run_boolean_eq_fail_iff.mpr ⟨rfl, symbol_refuses rfl fun c first => (other c first).1,
    symbol_refuses rfl fun c first => (other c first).2⟩⟩

theorem string_refuses {s : List Char} (other : ∀ c ∈ s.head?, c ≠ '"') : Refuses string s := by
  obtain ⟨error, misses⟩ := exists_misses other
  exact ⟨error, run_string_eq_fail_iff.mpr (Or.inl misses)⟩

theorem arrayOf_refuses {s : List Char} (item : Unit → Parser Json)
    (other : ∀ c ∈ s.head?, c ≠ '[') : Refuses (arrayOf item) s := by
  obtain ⟨error, misses⟩ := exists_misses other
  refine ⟨error, ?_⟩
  rw [run_arrayOf]
  exact (run_enclosed_eq_fail_iff rfl rfl (sepBy_ne_fail _ _)).mpr (Or.inl misses)

theorem objectOf_refuses {s : List Char} (item : Unit → Parser Json)
    (other : ∀ c ∈ s.head?, c ≠ '\x7b') : Refuses (objectOf item) s := by
  obtain ⟨error, misses⟩ := exists_misses other
  have enclosed : Refuses (braces (sepBy (entryOf item) (symbol ","))) s :=
    ⟨error, (run_enclosed_eq_fail_iff rfl rfl (sepBy_ne_fail _ _)).mpr (Or.inl misses)⟩
  exact enclosed.map _

/-- The productions a value may be. -/
inductive Production where
  | number
  | boolean
  | string
  | object
  | array
  deriving DecidableEq, Repr

namespace Production

def all : List Production := [number, boolean, string, object, array]

theorem mem_all (p : Production) : p ∈ all := by
  cases p <;> decide

/-- The production as a value. -/
def parser : Production → Parser Json
  | number => Grammar.number.map Json.number
  | boolean => Grammar.boolean.map Json.boolean
  | string => Grammar.string.map Json.string
  | object => Grammar.object.map Json.object
  | array => Grammar.array.map Json.array

/-- The production with a parser of its own for the values that are nested in it. -/
def parserOf (item : Unit → Parser Json) : Production → Parser Json
  | number => Grammar.number.map Json.number
  | boolean => Grammar.boolean.map Json.boolean
  | string => Grammar.string.map Json.string
  | object => (objectOf item).map Json.object
  | array => (arrayOf item).map Json.array

/-- On `s` the production reads what stands in the tree as its kind of value, and leaves `t`. -/
inductive Yields (s t : List Char) : Production → Json → Prop
  | number {x : Binary64} (read : Grammar.number.run s = .ok ⟨x, t⟩) : Yields s t number (.number x)
  | boolean {b : Bool} (read : Grammar.boolean.run s = .ok ⟨b, t⟩) :
      Yields s t boolean (.boolean b)
  | string {text : String} (read : Grammar.string.run s = .ok ⟨text, t⟩) :
      Yields s t string (.string text)
  | object {entries : Entries Json} (read : Grammar.object.run s = .ok ⟨entries, t⟩) :
      Yields s t object (.object entries)
  | array {items : List Json} (read : Grammar.array.run s = .ok ⟨items, t⟩) :
      Yields s t array (.array items)

theorem yields_iff {s t : List Char} {p : Production} {v : Json} :
    Yields s t p v ↔ p.parser.run s = .ok ⟨v, t⟩ := by
  constructor
  · intro yields
    cases yields with
    | number read | boolean read | string read | object read | array read =>
        rw [parser, run_map, read]
        rfl
  · intro ok
    cases p with
    | number | boolean | string | object | array =>
        rw [parser, run_map] at ok
        obtain ⟨⟨x, rest⟩, read, same⟩ := Outcome.map_eq_ok_iff.mp ok
        cases same
        constructor
        exact read

def announcedBy? (c : Char) : Option Production :=
  if c = '-' ∨ c.isDigit = true then some number
  else if c = 't' ∨ c = 'f' then some boolean
  else if c = '"' then some string
  else if c = '\x7b' then some object
  else if c = '[' then some array
  else none

def announced? (s : List Char) : Option Production := s.head?.bind announcedBy?

theorem parserOf_refuses (item : Unit → Parser Json) {p : Production} {s : List Char}
    (other : announced? s ≠ some p) : Refuses (p.parserOf item) s := by
  have first : ∀ c ∈ s.head?, announcedBy? c ≠ some p := by
    intro c front
    rw [announced?, Option.mem_def.mp front] at other
    exact other
  cases p with
  | number =>
      refine (number_refuses fun c front => ?_).map _
      have foreign := first c front
      constructor
      · rintro rfl
        exact foreign rfl
      · by_contra digit
        exact foreign (if_pos (Or.inr (by simpa using digit)))
  | boolean =>
      refine (boolean_refuses fun c front => ⟨?_, ?_⟩).map _
      · rintro rfl
        exact first 't' front rfl
      · rintro rfl
        exact first 'f' front rfl
  | string =>
      refine (string_refuses fun c front => ?_).map _
      rintro rfl
      exact first '"' front rfl
  | object =>
      refine (objectOf_refuses item fun c front => ?_).map _
      rintro rfl
      exact first '\x7b' front rfl
  | array =>
      refine (arrayOf_refuses item fun c front => ?_).map _
      rintro rfl
      exact first '[' front rfl

theorem run_parser_eq (p : Production) (s : List Char) :
    p.parser.run s = (p.parserOf fun _ => value).run s := by
  cases p with
  | number => rfl
  | boolean => rfl
  | string => rfl
  | object => exact congrFun (Parser.map_congr (funext run_object_eq) Json.object) s
  | array => exact congrFun (Parser.map_congr (funext run_array_eq) Json.array) s

theorem parser_refuses {p : Production} {s : List Char} (other : announced? s ≠ some p) :
    Refuses p.parser s := by
  rw [Refuses, run_parser_eq]
  exact parserOf_refuses _ other

theorem announced_of_run_eq_ok {p : Production} {s : List Char} {r : Parsed Json}
    (ok : p.parser.run s = .ok r) : announced? s = some p := by
  by_contra other
  obtain ⟨error, failed⟩ := parser_refuses other
  rw [ok] at failed
  cases failed

theorem parserOf_congr {item item' : Unit → Parser Json} (same : (item ()).run = (item' ()).run)
    (p : Production) : (p.parserOf item).run = (p.parserOf item').run := by
  cases p with
  | number => rfl
  | boolean => rfl
  | string => rfl
  | object =>
      have entry : (entryOf item).run = (entryOf item').run :=
        bind_congr rfl fun key => Parser.map_congr same _
      have entries := (SameUpToError.of_run_eq entry).run_sepBy_eq (symbol ",")
      have objects : (objectOf item).run = (objectOf item').run :=
        Parser.map_congr (between_congr rfl rfl entries) Entries.ofBindings
      exact Parser.map_congr objects Json.object
  | array =>
      have items := (SameUpToError.of_run_eq same).run_sepBy_eq (symbol ",")
      have arrays : (arrayOf item).run = (arrayOf item').run :=
        bind_congr rfl fun _ => between_congr rfl rfl items
      exact Parser.map_congr arrays Json.array

end Production

open Production

theorem valueOf_eq (item : Unit → Parser Json) :
    valueOf item = choice "JSON value" (Production.all.map (Production.parserOf item)) := rfl

/-- Runs the announced production and no other one. -/
def predictiveOf (item : Unit → Parser Json) : Parser Json :=
  step fun s => match announced? s with
    | none => .fail ⟨"JSON value", "no match"⟩
    | some p => ((p.parserOf item).run s).mapError fun _ => ⟨"JSON value", "no match"⟩

/-- The nested values are read without going back as well, down to a depth. -/
def predictiveWithin : Nat → Parser Json
  | 0 => step fun _ => .stalled
  | depth + 1 => predictiveOf fun _ => predictiveWithin depth

def predictive : Parser Json := step fun s => (predictiveWithin (s.length + 1)).run s

/-- In whatever order and number the alternatives are tried. -/
theorem run_choice_of_covers {alternative : Production → Parser Json} {ps : List (Parser Json)}
    {s : List Char} (covers : ∀ p, alternative p ∈ ps)
    (each : ∀ q ∈ ps, ∃ p, alternative p = q)
    (refuses : ∀ p, announced? s ≠ some p → Refuses (alternative p) s) :
    (choice "JSON value" ps).run s = match announced? s with
      | none => .fail ⟨"JSON value", "no match"⟩
      | some p => ((alternative p).run s).mapError fun _ => ⟨"JSON value", "no match"⟩ := by
  cases next : announced? s with
  | none =>
      refine run_choice_eq_fail_iff.mpr ⟨rfl, fun q listed => ?_⟩
      obtain ⟨p, rfl⟩ := each q listed
      exact refuses p (by simp [next])
  | some p =>
      refine run_choice_of_mem "JSON value" (covers p) fun q listed => ?_
      obtain ⟨other, rfl⟩ := each q listed
      by_cases same : other = p
      · exact Or.inl (congrArg alternative same)
      · refine Or.inr (refuses other fun known => same ?_)
        rw [next] at known
        exact (Option.some.inj known).symm

theorem run_valueOf_eq_predictiveOf (item : Unit → Parser Json) :
    (valueOf item).run = (predictiveOf item).run := by
  funext s
  rw [valueOf_eq]
  refine run_choice_of_covers (fun p => List.mem_map_of_mem (mem_all p)) (fun q listed => ?_)
    fun p other => parserOf_refuses item other
  obtain ⟨p, _, rfl⟩ := List.mem_map.mp listed
  exact ⟨p, rfl⟩

theorem predictiveOf_congr {item item' : Unit → Parser Json}
    (same : (item ()).run = (item' ()).run) :
    (predictiveOf item).run = (predictiveOf item').run := by
  funext s
  simp only [predictiveOf, run_step, Production.parserOf_congr same]

theorem run_valueWithin_eq_predictiveWithin (depth : Nat) :
    (valueWithin depth).run = (predictiveWithin depth).run := by
  induction depth with
  | zero => rfl
  | succ depth ih =>
      calc (valueWithin (depth + 1)).run
          = (predictiveOf fun _ => valueWithin depth).run := run_valueOf_eq_predictiveOf _
        _ = (predictiveOf fun _ => predictiveWithin depth).run := predictiveOf_congr ih

theorem run_value_eq_predictive (s : List Char) : value.run s = predictive.run s := by
  rw [run_value, predictive, run_step, run_valueWithin_eq_predictiveWithin]

theorem run_value_eq_announced (s : List Char) :
    value.run s = match announced? s with
      | none => .fail ⟨"JSON value", "no match"⟩
      | some p => (p.parser.run s).mapError fun _ => ⟨"JSON value", "no match"⟩ := by
  rw [run_value_eq, run_valueOf_eq_predictiveOf]
  simp only [predictiveOf, run_step, run_parser_eq]

theorem run_value_eq_ok_iff {s : List Char} {r : Parsed Json} :
    value.run s = .ok r ↔ ∃ p : Production, p.parser.run s = .ok r := by
  rw [run_value_eq_announced]
  constructor
  · intro ok
    cases next : announced? s with
    | none =>
        rw [next] at ok
        cases ok
    | some p =>
        rw [next] at ok
        exact ⟨p, Outcome.mapError_eq_ok_iff.mp ok⟩
  · rintro ⟨p, ok⟩
    rw [announced_of_run_eq_ok ok]
    exact Outcome.mapError_eq_ok_iff.mpr ok

theorem run_choice_of_perm {order : List (Parser Json)}
    (perm : order.Perm (Production.all.map Production.parser)) (s : List Char) :
    (choice "JSON value" order).run s = value.run s := by
  rw [run_value_eq_announced]
  refine run_choice_of_covers (fun p => ?_) (fun q listed => ?_) fun p other => parser_refuses other
  · exact perm.mem_iff.mpr (List.mem_map_of_mem (mem_all p))
  · obtain ⟨p, _, rfl⟩ := List.mem_map.mp (perm.mem_iff.mp listed)
    exact ⟨p, rfl⟩

/-- On every input at most one production succeeds, and a value is what this one reads, as its kind
of value and with the same rest. The alternatives of a value may be tried in any order, and it is
enough to look at the next character, for a value as well as for the values nested in it. -/
theorem value_dispatch (s : List Char) :
    (∀ p q v v' t t', Yields s t p v → Yields s t' q v' → p = q) ∧
    (∀ v t, value.run s = .ok ⟨v, t⟩ ↔ ∃ p, Yields s t p v) ∧
    (∀ order : List (Parser Json), order.Perm (Production.all.map Production.parser) →
      (choice "JSON value" order).run s = value.run s) ∧
    value.run s = predictive.run s := by
  refine ⟨?_, fun v t => ?_, fun order perm => run_choice_of_perm perm s, run_value_eq_predictive s⟩
  · intro p q v v' t t' yields yields'
    have first := announced_of_run_eq_ok (yields_iff.mp yields)
    rw [announced_of_run_eq_ok (yields_iff.mp yields')] at first
    exact (Option.some.inj first).symm
  · exact run_value_eq_ok_iff.trans (exists_congr fun p => yields_iff.symm)

/-- The production that reads the object comes second here and fourth in the grammar. -/
theorem value_dispatch_of_object :
    let s := "\x7b\"a\": [true, false], \"a\": \"]\"\x7d ]".toList
    let v := Json.object [("a", .string "]")]
    let order := Production.all.reverse.map Production.parser
    Yields s [']'] .object v ∧ value.run s = .ok ⟨v, [']']⟩ ∧
      (∀ p, Yields s [']'] p v → p = .object) ∧
      (choice "JSON value" order).run s = .ok ⟨v, [']']⟩ ∧ predictive.run s = .ok ⟨v, [']']⟩ := by
  intro s v order
  have yields : Yields s [']'] .object v := .object rfl
  obtain ⟨unique, reads, reordered, predicted⟩ := value_dispatch s
  have read : value.run s = .ok ⟨v, [']']⟩ := (reads _ _).mpr ⟨.object, yields⟩
  have perm : order.Perm (Production.all.map Production.parser) :=
    (List.reverse_perm Production.all).map Production.parser
  exact ⟨yields, read, fun p yields' => unique p .object _ _ _ _ yields' yields,
    (reordered order perm).trans read, predicted.symm.trans read⟩

end Descent.Json.Grammar
