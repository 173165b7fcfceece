import Descent.Proofs.LongestRun

namespace Descent.Parser

variable {α β : Type} {p : Parser α} {separator : Parser β} {s t : List Char}

/-- From the first text on elements are read with a separator between any two of them. The values are
those of the elements, and the last element leaves the second text. -/
inductive Interleaved (p : Parser α) (separator : Parser β) :
    List Char → List α → List Char → Prop
  | single {s : List Char} {r : Parsed α} (element : p.run s = .ok r) :
      Interleaved p separator s [r.value] r.rest
  | more {s t : List Char} {r : Parsed α} {u : Parsed β} {values : List α}
      (element : p.run s = .ok r) (gap : separator.run r.rest = .ok u)
      (rest : Interleaved p separator u.rest values t) :
      Interleaved p separator s (r.value :: values) t

theorem interleaved_of_row {r : Parsed α} {others : List α} (first : p.run s = .ok r)
    (row : Row (separator.keepRight p) r.rest others t) :
    Interleaved p separator s (r.value :: others) t := by
  generalize behind : r.rest = v at row
  induction row generalizing s r with
  | nil =>
      rw [← behind]
      exact .single first
  | cons found rest ih =>
      rw [run_keepRight, Outcome.bind_eq_ok_iff] at found
      obtain ⟨u, gap, element⟩ := found
      rw [← behind] at gap
      exact .more first gap (ih element rfl)

theorem Interleaved.row {values : List α} (turns : Interleaved p separator s values t) :
    ∃ r others, p.run s = .ok r ∧ values = r.value :: others ∧
      Row (separator.keepRight p) r.rest others t := by
  induction turns with
  | single element => exact ⟨_, [], element, rfl, .nil⟩
  | @more s t r u values element gap rest ih =>
      obtain ⟨q, others, next, rfl, row⟩ := ih
      have found : (separator.keepRight p).run r.rest = .ok q := by
        rw [run_keepRight, gap]
        exact next
      exact ⟨r, q.value :: others, element, rfl, .cons found row⟩

theorem run_sepBy1_eq_fail_iff {error : Mismatch} :
    (sepBy1 p separator).run s = .fail error ↔ p.run s = .fail error := by
  simp only [run_sepBy1, Outcome.bind_eq_fail_iff, Outcome.map_eq_fail_iff, many_ne_fail, and_false,
    exists_false, or_false]

theorem run_sepBy1_eq_ok_iff
    (consumes : ∀ s r, (separator.keepRight p).run s = .ok r → r.rest.length < s.length)
    {values : List α} :
    (sepBy1 p separator).run s = .ok ⟨values, t⟩ ↔
      Interleaved p separator s values t ∧ Refuses (separator.keepRight p) t := by
  rw [run_sepBy1, Outcome.bind_eq_ok_iff]
  constructor
  · rintro ⟨r, first, others⟩
    obtain ⟨q, loop, built⟩ := Outcome.map_eq_ok_iff.mp others
    obtain ⟨row, stop⟩ := (run_many_eq_ok_iff consumes).mp loop
    cases built
    exact ⟨interleaved_of_row first row, stop⟩
  · rintro ⟨turns, stop⟩
    obtain ⟨r, others, first, rfl, row⟩ := turns.row
    refine ⟨r, first, Outcome.map_eq_ok_iff.mpr ⟨⟨others, t⟩, ?_, rfl⟩⟩
    exact (run_many_eq_ok_iff consumes).mpr ⟨row, stop⟩

theorem run_sepBy1_eq_stalled_iff
    (consumes : ∀ s r, (separator.keepRight p).run s = .ok r → r.rest.length < s.length) :
    (sepBy1 p separator).run s = .stalled ↔ p.run s = .stalled ∨
      ∃ values t, Interleaved p separator s values t ∧
        (separator.keepRight p).run t = .stalled := by
  simp only [run_sepBy1, Outcome.bind_eq_stalled_iff, Outcome.map_eq_stalled_iff,
    run_many_eq_stalled_iff consumes]
  refine or_congr_right ?_
  constructor
  · rintro ⟨r, first, others, t, row, endless⟩
    exact ⟨_, t, interleaved_of_row first row, endless⟩
  · rintro ⟨values, t, turns, endless⟩
    obtain ⟨r, others, first, _, row⟩ := turns.row
    exact ⟨r, first, others, t, row, endless⟩

/-- A separated list reads elements and separators in turns as long as it can. It never fails. Its
values and its rest are those of no element, where none can be read, or of elements with separators
between them, where no separator with an element behind it can be read on the rest. It ends unless the
element or the separator comes to no end itself. -/
theorem run_sepBy_iff_interleaved
    (consumes : ∀ s r, (separator.keepRight p).run s = .ok r → r.rest.length < s.length)
    (s : List Char) :
    (∀ error, (sepBy p separator).run s ≠ .fail error) ∧
    (∀ values t, (sepBy p separator).run s = .ok ⟨values, t⟩ ↔
      (values = [] ∧ Refuses p s ∧ t = s) ∨
        (Interleaved p separator s values t ∧ Refuses (separator.keepRight p) t)) ∧
    ((sepBy p separator).run s = .stalled ↔ p.run s = .stalled ∨
      ∃ values t, Interleaved p separator s values t ∧
        (separator.keepRight p).run t = .stalled) := by
  refine ⟨sepBy_ne_fail p separator s, ?_, ?_⟩
  · intro values t
    rw [run_sepBy, Outcome.recover_eq_ok_iff, run_sepBy1_eq_ok_iff consumes]
    simp only [run_sepBy1_eq_fail_iff]
    constructor
    · rintro (turns | ⟨error, refused, none⟩)
      · exact Or.inr turns
      · cases none
        exact Or.inl ⟨rfl, ⟨error, refused⟩, rfl⟩
    · rintro (⟨rfl, ⟨error, refused⟩, rfl⟩ | turns)
      · exact Or.inr ⟨error, refused, rfl⟩
      · exact Or.inl turns
  · rw [run_sepBy, Outcome.recover_eq_stalled_iff, run_sepBy1_eq_stalled_iff consumes]
    simp only [reduceCtorEq, and_false, exists_false, or_false]

theorem run_sepBy_iff_interleaved_of_trailing_comma :
    let p := digit
    let separator := symbol ","
    (∀ s r, (separator.keepRight p).run s = .ok r → r.rest.length < s.length) ∧
      (sepBy p separator).run "1, 2,x".toList = .ok ⟨['1', '2'], ",x".toList⟩ := by
  intro p separator
  have consumes : ∀ s r, (separator.keepRight p).run s = .ok r → r.rest.length < s.length :=
    (((takes_symbol ",").mono (by decide)).keepRight takes_digit.zero).consumes
  have turns : Interleaved p separator "1, 2,x".toList ['1', '2'] ",x".toList :=
    .more (r := ⟨'1', ", 2,x".toList⟩) (u := ⟨",", "2,x".toList⟩) rfl rfl
      (.single (r := ⟨'2', ",x".toList⟩) rfl)
  have stop : Refuses (separator.keepRight p) ",x".toList := ⟨⟨"digit", "x"⟩, rfl⟩
  exact ⟨consumes, ((run_sepBy_iff_interleaved consumes _).2.1 _ _).mpr (Or.inr ⟨turns, stop⟩)⟩

end Descent.Parser
