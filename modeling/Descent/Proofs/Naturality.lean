import Descent.Proofs.Congruence
import Descent.Proofs.Pairing

namespace Descent.Parser

variable {α β γ δ ε ζ : Type}

theorem map_orElse (h : α → β) (p q : Parser α) :
    (p.orElse q).map h = (p.map h).orElse (q.map h) := by
  apply eq_iff_kind_run.mpr
  constructor
  · cases p <;> rfl
  · intro s
    simp only [run_map, run_orElse, Outcome.map_recover]

theorem optional_map (h : α → β) (p : Parser α) (default : α) :
    (p.map h).optional (h default) = (p.optional default).map h :=
  (map_orElse h p (always default)).symm

theorem choice_map (h : α → β) (description : String) (ps : List (Parser α)) :
    choice description (ps.map (map h)) = (choice description ps).map h := by
  induction ps with
  | nil => rfl
  | cons p ps ih => rw [List.map_cons, choice_cons, choice_cons, ih, map_orElse]

theorem map_keepRight (g : α → γ) (p : Parser α) (q : Parser β) :
    (p.map g).keepRight q = p.keepRight q := by
  rw [keepRight_eq_bind, keepRight_eq_bind, bind_map]

theorem keepRight_map (h : β → γ) (p : Parser α) (q : Parser β) :
    p.keepRight (q.map h) = (p.keepRight q).map h := by
  rw [keepRight_eq_bind, keepRight_eq_bind, map_bind]

theorem map_keepLeft (h : α → γ) (p : Parser α) (q : Parser β) :
    (p.map h).keepLeft q = (p.keepLeft q).map h := by
  simp only [keepLeft_eq_bind, bind_map, map_bind, map_map]
  rfl

theorem keepLeft_map (g : β → γ) (p : Parser α) (q : Parser β) :
    p.keepLeft (q.map g) = p.keepLeft q := by
  simp only [keepLeft_eq_bind, map_map]
  rfl

theorem between_map (h : γ → δ) (opening : Parser α) (closing : Parser β) (p : Parser γ) :
    between opening closing (p.map h) = (between opening closing p).map h := by
  rw [between, between, keepRight_map, map_keepLeft]

theorem between_map_ends (f : α → δ) (g : β → ε) (opening : Parser α) (closing : Parser β)
    (p : Parser γ) : between (opening.map f) (closing.map g) p = between opening closing p := by
  rw [between, between, map_keepRight, keepLeft_map]

/-- An element in front of a list: the function goes to the element and to the list. -/
theorem map_bind_cons (h : α → β) (p : Parser α) (others : Parser (List α)) :
    ((p.map h).bind fun x => (others.map (List.map h)).map (x :: ·)) =
      (p.bind fun x => others.map (x :: ·)).map (List.map h) := by
  simp only [bind_map, map_bind, map_map]
  rfl

theorem sequence_map (h : α → β) (ps : List (Parser α)) :
    sequence (ps.map (map h)) = (sequence ps).map (List.map h) := by
  induction ps with
  | nil => rfl
  | cons p ps ih => rw [List.map_cons, sequence_cons, sequence_cons, ih, map_bind_cons]

/-- The loop never looks at what it has found. -/
theorem repeatFrom_map (h : α → β) (p : Parser α) (budget : List Char) (found : List α)
    (s : List Char) :
    repeatFrom (p.map h) budget (found.map h) s =
      (repeatFrom p budget found s).map (Parsed.map (List.map h)) := by
  induction budget generalizing found s with
  | nil =>
      unfold repeatFrom
      rw [run_map]
      cases p.run s with
      | ok r => rfl
      | fail error => simp only [Outcome.map, Parsed.map, List.map_reverse]
      | stalled => rfl
  | cons cell budget ih =>
      unfold repeatFrom
      rw [run_map]
      cases p.run s with
      | ok r => exact ih (r.value :: found) r.rest
      | fail error => simp only [Outcome.map, Parsed.map, List.map_reverse]
      | stalled => rfl

theorem many_map (h : α → β) (p : Parser α) : many (p.map h) = (many p).map (List.map h) := by
  apply eq_iff_kind_run.mpr
  constructor
  · rfl
  · intro s
    rw [run_map]
    exact repeatFrom_map h p s [] s

theorem many1_map (h : α → β) (p : Parser α) : many1 (p.map h) = (many1 p).map (List.map h) := by
  have runs : (many1 (p.map h)).run = ((many1 p).map (List.map h)).run := by
    calc
      (many1 (p.map h)).run = ((p.map h).bind fun x => (many (p.map h)).map (x :: ·)).run :=
        run_many1_eq_bind (p.map h)
      _ = ((p.bind fun x => (many p).map (x :: ·)).map (List.map h)).run := by
        rw [many_map, map_bind_cons]
      _ = ((many1 p).map (List.map h)).run := map_congr (run_many1_eq_bind p).symm (List.map h)
  exact eq_iff_kind_run.mpr ⟨rfl, congrFun runs⟩

theorem sepBy1_map (h : α → β) (p : Parser α) (separator : Parser γ) :
    sepBy1 (p.map h) separator = (sepBy1 p separator).map (List.map h) := by
  rw [sepBy1, sepBy1, keepRight_map, many_map, map_bind_cons]

theorem sepBy_map (h : α → β) (p : Parser α) (separator : Parser γ) :
    sepBy (p.map h) separator = (sepBy p separator).map (List.map h) := by
  rw [sepBy, sepBy, sepBy1_map]
  exact optional_map (List.map h) (sepBy1 p separator) []

theorem sepBy1_map_separator (g : β → γ) (p : Parser α) (separator : Parser β) :
    sepBy1 p (separator.map g) = sepBy1 p separator := by
  rw [sepBy1, sepBy1, map_keepRight]

theorem sepBy_map_separator (g : β → γ) (p : Parser α) (separator : Parser β) :
    sepBy p (separator.map g) = sepBy p separator := by
  rw [sepBy, sepBy, sepBy1_map_separator]

/-- No combinator looks at a value, leaves one out or changes their order. A function on the values of an
element is the same as that function on each value the combinator has in the end. What is done to the
values of a separator or of the ends of an enclosure is not noticed. This is so for any element, also for
one whose repetition does not end. -/
theorem combinators_natural (h : α → β) (f : γ → ε) (g : δ → ζ) (p : Parser α)
    (ps : List (Parser α)) (description : String) (default : α) (separator : Parser γ)
    (opening : Parser γ) (closing : Parser δ) :
    many (p.map h) = (many p).map (List.map h) ∧
    many1 (p.map h) = (many1 p).map (List.map h) ∧
    sepBy1 (p.map h) separator = (sepBy1 p separator).map (List.map h) ∧
    sepBy (p.map h) separator = (sepBy p separator).map (List.map h) ∧
    sequence (ps.map (map h)) = (sequence ps).map (List.map h) ∧
    choice description (ps.map (map h)) = (choice description ps).map h ∧
    (p.map h).optional (h default) = (p.optional default).map h ∧
    between opening closing (p.map h) = (between opening closing p).map h ∧
    sepBy p (separator.map f) = sepBy p separator ∧
    between (opening.map f) (closing.map g) p = between opening closing p :=
  ⟨many_map h p, many1_map h p, sepBy1_map h p separator, sepBy_map h p separator, sequence_map h ps,
    choice_map h description ps, optional_map h p default, between_map h opening closing p,
    sepBy_map_separator f p separator, between_map_ends f g opening closing p⟩

end Descent.Parser
