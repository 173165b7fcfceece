import Descent.Proofs.Algebra

namespace Descent.Parser

variable {α : Type} {ps : List (Parser α)} {s t : List Char}

/-- From the first text on these parsers succeed one behind the other, each on what the one before it
leaves. The values are theirs in order, and the second text is what the last one leaves. -/
inductive Threaded : List (Parser α) → List Char → List α → List Char → Prop
  | nil {s : List Char} : Threaded [] s [] s
  | cons {p : Parser α} {ps : List (Parser α)} {s t : List Char} {r : Parsed α} {values : List α}
      (first : p.run s = .ok r) (later : Threaded ps r.rest values t) :
      Threaded (p :: ps) s (r.value :: values) t

/-- This parser is one of the list, and those in front of it succeed one behind the other and leave it
this text. -/
def Reached (ps : List (Parser α)) (s : List Char) (p : Parser α) (t : List Char) : Prop :=
  ∃ front back values, ps = front ++ p :: back ∧ Threaded front s values t

theorem Threaded.length_eq {values : List α} (threaded : Threaded ps s values t) :
    values.length = ps.length := by
  induction threaded with
  | nil => rfl
  | cons first later ih => exact congrArg (· + 1) ih

theorem threaded_cons_iff {p : Parser α} {values : List α} :
    Threaded (p :: ps) s values t ↔
      ∃ r later, p.run s = .ok r ∧ Threaded ps r.rest later t ∧ values = r.value :: later := by
  constructor
  · intro threaded
    cases threaded with
    | cons first later => exact ⟨_, _, first, later, rfl⟩
  · rintro ⟨r, later, first, threaded, rfl⟩
    exact .cons first threaded

/-- The head of a list is run first, and the others only if it succeeds. -/
theorem reached_cons_iff {p q : Parser α} :
    Reached (p :: ps) s q t ↔
      (q = p ∧ t = s) ∨ ∃ r, p.run s = .ok r ∧ Reached ps r.rest q t := by
  constructor
  · rintro ⟨front, back, values, split, threaded⟩
    cases threaded with
    | nil =>
        cases split
        exact Or.inl ⟨rfl, rfl⟩
    | @cons _ front _ _ r values first later =>
        cases split
        exact Or.inr ⟨r, first, front, back, values, rfl, later⟩
  · rintro (⟨rfl, rfl⟩ | ⟨r, first, front, back, values, rfl, later⟩)
    · exact ⟨[], ps, [], rfl, .nil⟩
    · exact ⟨p :: front, back, r.value :: values, rfl, .cons first later⟩

theorem exists_reached_cons_iff {p : Parser α} (ends : Outcome (Parsed α) → Prop) :
    (∃ q t, Reached (p :: ps) s q t ∧ ends (q.run t)) ↔
      ends (p.run s) ∨ ∃ r, p.run s = .ok r ∧ ∃ q t, Reached ps r.rest q t ∧ ends (q.run t) := by
  simp only [reached_cons_iff]
  constructor
  · rintro ⟨q, t, ⟨rfl, rfl⟩ | ⟨r, first, reached⟩, final⟩
    · exact Or.inl final
    · exact Or.inr ⟨r, first, q, t, reached, final⟩
  · rintro (final | ⟨r, first, q, t, reached, final⟩)
    · exact ⟨p, s, Or.inl ⟨rfl, rfl⟩, final⟩
    · exact ⟨q, t, Or.inr ⟨r, first, reached⟩, final⟩

theorem not_reached_nil {p : Parser α} : ¬Reached [] s p t := by
  rintro ⟨front, back, values, split, threaded⟩
  exact List.append_ne_nil_of_right_ne_nil front (List.cons_ne_nil p back) split.symm

theorem run_sequence_eq_ok_iff {values : List α} :
    (sequence ps).run s = .ok ⟨values, t⟩ ↔ Threaded ps s values t := by
  induction ps generalizing s values with
  | nil =>
      constructor
      · intro ok
        cases ok
        exact .nil
      · intro threaded
        cases threaded
        rfl
  | cons p ps ih =>
      rw [run_sequence_cons, Outcome.bind_eq_ok_iff, threaded_cons_iff]
      constructor
      · rintro ⟨r, first, others⟩
        obtain ⟨q, later, built⟩ := Outcome.map_eq_ok_iff.mp others
        cases built
        exact ⟨r, q.value, first, ih.mp later, rfl⟩
      · rintro ⟨r, later, first, threaded, rfl⟩
        exact ⟨r, first, Outcome.map_eq_ok_iff.mpr ⟨⟨later, t⟩, ih.mpr threaded, rfl⟩⟩

theorem run_sequence_eq_fail_iff {error : Mismatch} :
    (sequence ps).run s = .fail error ↔ ∃ p t, Reached ps s p t ∧ p.run t = .fail error := by
  induction ps generalizing s with
  | nil => simp [not_reached_nil]
  | cons p ps ih =>
      rw [run_sequence_cons, Outcome.bind_eq_fail_iff,
        exists_reached_cons_iff (· = .fail error)]
      simp only [Outcome.map_eq_fail_iff, ih]

theorem run_sequence_eq_stalled_iff :
    (sequence ps).run s = .stalled ↔ ∃ p t, Reached ps s p t ∧ p.run t = .stalled := by
  induction ps generalizing s with
  | nil => simp [not_reached_nil]
  | cons p ps ih =>
      rw [run_sequence_cons, Outcome.bind_eq_stalled_iff,
        exists_reached_cons_iff (· = .stalled)]
      simp only [Outcome.map_eq_stalled_iff, ih]

theorem kind_sequence (ps : List (Parser α)) :
    (sequence ps).kind = (ps.find? (·.kind != .always)).elim .always kind := by
  induction ps with
  | nil => rfl
  | cons p ps ih =>
      rw [sequence_cons]
      cases p with
      | always value => exact (kind_map _ _).trans ih
      | never error => rfl
      | step run => rfl

theorem sequence_eq_always_iff {values : List α} :
    sequence ps = always values ↔ ps = values.map always := by
  induction ps generalizing values with
  | nil => cases values <;> simp
  | cons p ps ih =>
      rw [sequence_cons]
      cases p with
      | always value =>
          constructor
          · intro known
            obtain ⟨later, tail, rfl⟩ := map_eq_always_iff.mp known
            rw [List.map_cons, ← ih.mp tail]
          · intro shape
            cases values with
            | nil => cases shape
            | cons first later =>
                obtain ⟨head, tail⟩ := List.cons.inj shape
                cases head
                exact map_eq_always_iff.mpr ⟨later, ih.mpr tail, rfl⟩
      | never error => cases values <;> simp [bind]
      | step run => cases values <;> simp [bind]

theorem sequence_eq_never_iff {error : Mismatch} :
    sequence ps = never error ↔ ps.find? (·.kind != .always) = some (never error) := by
  induction ps with
  | nil => simp
  | cons p ps ih =>
      rw [sequence_cons]
      cases p with
      | always value => exact map_eq_never_iff.trans ih
      | never first => simp [bind, kind]
      | step run => simp [bind, kind]

/-- One list of elements may be cut in two anywhere. -/
theorem sequence_append (xs ys : List (Parser α)) :
    sequence (xs ++ ys) = (sequence xs).bind fun a => (sequence ys).map fun b => a ++ b := by
  induction xs with
  | nil => exact (map_id (sequence ys)).symm
  | cons p xs ih =>
      rw [List.cons_append, sequence_cons, sequence_cons, ih]
      simp only [map_eq_bind, bind_assoc]
      rfl

/-- A sequence hands the input on from left to right. It has the values of its elements, one for each and
in their order, if each succeeds on what the one before it leaves, and the last one leaves the rest.
Otherwise it comes to what the first element comes to that does not succeed. In advance it is known as
well as its first element that is not known to succeed: to fail with the error of that element, or, if
there is none, to succeed with all their values. Cut in two, it is two sequences one behind the other. -/
theorem sequence_threads (xs ys : List (Parser α)) (s : List Char) :
    (∀ values t, (sequence xs).run s = .ok ⟨values, t⟩ ↔
      Threaded xs s values t ∧ values.length = xs.length) ∧
    (∀ error, (sequence xs).run s = .fail error ↔
      ∃ p t, Reached xs s p t ∧ p.run t = .fail error) ∧
    ((sequence xs).run s = .stalled ↔ ∃ p t, Reached xs s p t ∧ p.run t = .stalled) ∧
    (sequence xs).kind = (xs.find? (·.kind != .always)).elim .always kind ∧
    (∀ error, sequence xs = never error ↔
      xs.find? (·.kind != .always) = some (never error)) ∧
    (∀ values, sequence xs = always values ↔ xs = values.map always) ∧
    sequence (xs ++ ys) = (sequence xs).bind fun a => (sequence ys).map fun b => a ++ b := by
  refine ⟨?_, fun error => run_sequence_eq_fail_iff, run_sequence_eq_stalled_iff, kind_sequence xs,
    fun error => sequence_eq_never_iff, fun values => sequence_eq_always_iff, sequence_append xs ys⟩
  intro values t
  rw [run_sequence_eq_ok_iff]
  exact (and_iff_left_of_imp Threaded.length_eq).symm

end Descent.Parser
