import Descent.Proofs.Failure
import Descent.Proofs.Pairing

namespace Descent.Parser

variable {α β : Type}

theorem kind_label (p : Parser α) (name : String) : (p.label name).kind = p.kind := by
  cases p <;> rfl

theorem label_label (p : Parser α) (name other : String) :
    (p.label name).label other = p.label other := by
  apply eq_iff_kind_run.mpr
  constructor
  · simp only [kind_label]
  · intro s
    simp only [run_label, Outcome.mapError_mapError]
    rfl

theorem label_orElse (p q : Parser α) (name : String) :
    (p.orElse q).label name = p.orElse (q.label name) := by
  apply eq_iff_kind_run.mpr
  constructor
  · cases p <;> rfl
  · intro s
    simp only [run_label, run_orElse, Outcome.mapError_recover]

theorem label_bind (p : Parser α) (f : α → Parser β) (name : String) :
    (p.bind f).label name = (p.label name).bind fun x => (f x).label name := by
  apply eq_iff_kind_run.mpr
  constructor
  · cases p <;> rfl
  · intro s
    simp only [run_label, run_bind, Outcome.mapError_bind]

theorem label_map (p : Parser α) (h : α → β) (name : String) :
    (p.map h).label name = (p.label name).map h := by
  rw [map_eq_bind, map_eq_bind, label_bind]
  rfl

theorem label_eq_self {p : Parser α} (certain : ∀ s error, p.run s ≠ .fail error) (name : String) :
    p.label name = p := by
  apply eq_iff_kind_run.mpr
  constructor
  · exact kind_label p name
  · intro s
    rw [run_label]
    cases ran : p.run s with
    | ok r => rfl
    | fail error => exact absurd ran (certain s error)
    | stalled => rfl

/-- A failure that is recovered from is forgotten, with its label. -/
theorem orElse_label (p q : Parser α) (name : String) : (p.label name).orElse q = p.orElse q := by
  apply eq_iff_kind_run.mpr
  constructor
  · cases p <;> rfl
  · intro s
    simp only [run_orElse, run_label, Outcome.recover_mapError]

theorem optional_label (p : Parser α) (default : α) (name : String) :
    (p.label name).optional default = p.optional default :=
  orElse_label p (always default) name

theorem choice_label (description : String) (members : List (Parser α × String)) :
    choice description (members.map fun member => member.1.label member.2) =
      choice description (members.map Prod.fst) := by
  induction members with
  | nil => rfl
  | cons member members ih =>
      rw [List.map_cons, List.map_cons, choice_cons, choice_cons, ih, orElse_label]

theorem many_label (p : Parser α) (name : String) : many (p.label name) = many p :=
  (sameUpToError_label p name).many_eq

/-- An element in front of a list fails as the element does, or as the list does. -/
theorem label_bind_cons (p : Parser α) (others : Parser (List α)) (name : String) :
    (p.bind fun x => others.map (x :: ·)).label name =
      (p.label name).bind fun x => (others.label name).map (x :: ·) := by
  simp only [label_bind, label_map]

theorem label_sequence (ps : List (Parser α)) (name : String) :
    (sequence ps).label name = sequence (ps.map (·.label name)) := by
  induction ps with
  | nil => rfl
  | cons p ps ih => rw [List.map_cons, sequence_cons, sequence_cons, label_bind_cons, ih]

/-- Behind the first element of a list only a repetition is left, and that does not fail. -/
theorem label_bind_many (p q : Parser α) (name : String) :
    (p.bind fun x => (many q).map (x :: ·)).label name =
      (p.label name).bind fun x => (many q).map (x :: ·) := by
  rw [label_bind_cons, label_eq_self (many_ne_fail q) name]

theorem label_many1 (p : Parser α) (name : String) : (many1 p).label name = many1 (p.label name) := by
  have runs : ((many1 p).label name).run = (many1 (p.label name)).run := by
    calc
      ((many1 p).label name).run = ((p.bind fun x => (many p).map (x :: ·)).label name).run :=
        label_congr (run_many1_eq_bind p) name
      _ = ((p.label name).bind fun x => (many (p.label name)).map (x :: ·)).run := by
        rw [label_bind_many, many_label]
      _ = (many1 (p.label name)).run := (run_many1_eq_bind (p.label name)).symm
  exact eq_iff_kind_run.mpr ⟨rfl, congrFun runs⟩

theorem label_sepBy1 (p : Parser α) (separator : Parser β) (name mark : String) :
    (sepBy1 p separator).label name = sepBy1 (p.label name) (separator.label mark) := by
  have following : SameUpToError ((separator.label mark).keepRight (p.label name))
      (separator.keepRight p) :=
    (sameUpToError_label separator mark).keepRight (sameUpToError_label p name)
  rw [sepBy1, sepBy1, label_bind_many, following.many_eq]

theorem sepBy_label (p : Parser α) (separator : Parser β) (name mark : String) :
    sepBy (p.label name) (separator.label mark) = sepBy p separator := by
  rw [sepBy, sepBy, ← label_sepBy1, optional_label]

/-- A label names what was expected in every failure, and keeps all else: values, rests, what was found
instead, and runs without end. Of two labels the last one counts. On an alternation it is a label on the
last alternative, on steps one behind the other a label on each of them, whichever may fail, and on a
repetition of at least one a label on the element. A repetition, an optional element, a separated list
and a choice do not depend on the labels of what they are made of. -/
theorem label_reaches_failures (p q : Parser α) (f : α → Parser β) (ps : List (Parser α))
    (members : List (Parser α × String)) (separator : Parser β) (default : α)
    (description name other : String) :
    (∀ s r, (p.label name).run s = .ok r ↔ p.run s = .ok r) ∧
    (∀ s error, (p.label name).run s = .fail error ↔
      ∃ first, p.run s = .fail first ∧ error = ⟨name, first.actual⟩) ∧
    (∀ s, (p.label name).run s = .stalled ↔ p.run s = .stalled) ∧
    (p.label name).label other = p.label other ∧
    (p.orElse q).label name = p.orElse (q.label name) ∧
    (p.bind f).label name = ((p.label name).bind fun x => (f x).label name) ∧
    (sequence ps).label name = sequence (ps.map (·.label name)) ∧
    (many1 p).label name = many1 (p.label name) ∧
    many (p.label name) = many p ∧
    (p.label name).optional default = p.optional default ∧
    sepBy (p.label name) (separator.label other) = sepBy p separator ∧
    choice description (members.map fun member => member.1.label member.2) =
      choice description (members.map Prod.fst) := by
  refine ⟨?_, ?_, ?_, label_label p name other, label_orElse p q name, label_bind p f name,
    label_sequence ps name, label_many1 p name, many_label p name, optional_label p default name,
    sepBy_label p separator name other, choice_label description members⟩
  · intro s r
    rw [run_label, Outcome.mapError_eq_ok_iff]
  · intro s error
    rw [run_label, Outcome.mapError_eq_fail_iff]
    rfl
  · intro s
    rw [run_label, Outcome.mapError_eq_stalled_iff]

end Descent.Parser
