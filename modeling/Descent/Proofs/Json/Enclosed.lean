import Descent.Proofs.Failure
import Descent.Proofs.Json.Scalar

namespace Descent.Json.Grammar

open Descent.Parser

variable {α : Type} {p : Parser α} {Element : List Char → α → Prop}

/-- Texts of this kind that are short enough are read to their end, blanks behind them included, as
long as what follows does not prolong them. -/
def Accepts (bound : Nat) (p : Parser α) (Text : List Char → α → Prop) : Prop :=
  ∀ text a t, Text text a → Apart t → text.length < bound →
    p.run (text ++ t) = .ok ⟨a, t.dropWhile isBlank⟩

/-- Blanks in front of such a text do not belong to it. -/
def Fronted (Text : List Char → α → Prop) : Prop :=
  ∀ text a, Text text a → ∃ c u, text = c :: u ∧ isBlank c = false

structure Closing (c : Char) : Prop where
  solid : isBlank c = false
  notComma : c ≠ ','
  notDigit : c.isDigit = false
  notPoint : c ≠ '.'

theorem Closing.apart {c : Char} (closing : Closing c) (t : List Char) : Apart (c :: t) := by
  intro d first
  cases first
  exact ⟨closing.notDigit, closing.notPoint⟩

theorem apart_comma (t : List Char) : Apart (',' :: t) := by
  intro d first
  cases first
  decide

theorem Fronted.dropWhile {text w : List Char} {a : α} (fronted : Fronted Element)
    (shape : Element text a) (blanks : Blanks w) (t : List Char) :
    (w ++ (text ++ t)).dropWhile isBlank = text ++ t := by
  obtain ⟨c, u, rfl, solid⟩ := fronted text a shape
  rw [blanks.dropWhile_append]
  exact dropWhile_solid solid (u ++ t)

theorem run_comma (p : Parser α) (t : List Char) :
    ((symbol ",").keepRight p).run (',' :: t) = p.run (t.dropWhile isBlank) := by
  have mark : (symbol ",").run (',' :: t) = .ok ⟨",", t.dropWhile isBlank⟩ := run_symbol "," t
  rw [run_keepRight, mark, Outcome.bind]

theorem run_comma_eq_ok_iff {s : List Char} {r : Parsed α} :
    ((symbol ",").keepRight p).run s = .ok r ↔
      ∃ t, s = ',' :: t ∧ p.run (t.dropWhile isBlank) = .ok r := by
  simp only [run_keepRight, Outcome.bind_eq_ok_iff, run_symbol_eq_ok_iff]
  constructor
  · rintro ⟨_, ⟨t, rfl, rfl⟩, ok⟩
    exact ⟨t, rfl, ok⟩
  · rintro ⟨t, rfl, ok⟩
    exact ⟨_, ⟨t, rfl, rfl⟩, ok⟩

theorem comma_refuses {c : Char} (notComma : c ≠ ',') (t : List Char) :
    Refuses ((symbol ",").keepRight p) (c :: t) := by
  have missed : (symbol ",").run (c :: t) = .fail ⟨",", c.toString⟩ :=
    (run_mark_eq_fail_iff rfl).mpr (.other notComma)
  refine ⟨⟨",", c.toString⟩, ?_⟩
  rw [run_keepRight, missed]
  rfl

/-- Each round of the loop appends a comma and an element. -/
theorem separated_of_repeats {s t front : List Char} {x : α} {xs : List α}
    (reads : Reads p Element) (first : Element front x)
    (loop : Repeats ((symbol ",").keepRight p) s xs t) :
    ∃ text, s = text ++ t ∧ SeparatedText Element (front ++ text) (x :: xs) := by
  induction loop generalizing front x with
  | done stop =>
      refine ⟨[], rfl, ?_⟩
      rw [List.append_nil]
      exact .one first
  | @more s _ r xs found loop ih =>
      obtain ⟨u, rfl, read⟩ := run_comma_eq_ok_iff.mp found
      obtain ⟨next, split, element⟩ := reads _ r read
      obtain ⟨text, later, separated⟩ := ih element
      refine ⟨',' :: (u.takeWhile isBlank ++ (next ++ text)), ?_,
        .more first (blanks_takeWhile u) separated⟩
      rw [List.cons_append, List.append_assoc, List.append_assoc, ← later, ← split,
        List.takeWhile_append_dropWhile]

theorem sepBy_cases {s : List Char} {r : Parsed (List α)} (reads : Reads p Element)
    (ok : (sepBy p (symbol ",")).run s = .ok r) :
    r = ⟨[], s⟩ ∨ ∃ text, s = text ++ r.rest ∧ SeparatedText Element text r.value := by
  simp only [run_sepBy, run_sepBy1, Outcome.recover_eq_ok_iff, Outcome.bind_eq_ok_iff,
    Outcome.map_eq_ok_iff] at ok
  rcases ok with ⟨q, read, others, loop, rfl⟩ | ⟨_, _, none⟩
  · obtain ⟨front, split, element⟩ := reads s q read
    obtain ⟨text, later, separated⟩ :=
      separated_of_repeats reads element (repeats_of_run_many loop)
    refine Or.inr ⟨front ++ text, ?_, separated⟩
    rw [split, later, List.append_assoc]
    rfl
  · cases none
    exact Or.inl rfl

theorem between_reads {left right : String} {opening closing : Char}
    (opens : left.toList = [opening]) (closes : right.toList = [closing])
    (reads : Reads p Element) :
    Reads (between (symbol left) (symbol right) (sepBy p (symbol ",")))
      (EnclosedText opening closing Element) := by
  intro s r ok
  simp only [between, run_keepLeft, run_keepRight, Outcome.bind_eq_ok_iff, Outcome.map_eq_ok_iff,
    run_symbol_eq_ok_iff, opens, closes] at ok
  obtain ⟨elements, ⟨_, ⟨t, rfl, rfl⟩, inside⟩, _, ⟨u, behind, rfl⟩, rfl⟩ := ok
  rcases sepBy_cases reads inside with rfl | ⟨text, split, separated⟩
  · refine ⟨opening :: (t.takeWhile isBlank ++ closing :: u.takeWhile isBlank), ?_,
      .empty (blanks_takeWhile t) (blanks_takeWhile u)⟩
    have closed : t.dropWhile isBlank = closing :: u := behind
    calc [opening] ++ t
        = opening :: (t.takeWhile isBlank ++ t.dropWhile isBlank) := by
          rw [List.takeWhile_append_dropWhile]
          rfl
      _ = opening :: (t.takeWhile isBlank ++ closing :: u) := by
          rw [closed]
      _ = _ := by
          simp only [List.cons_append, List.append_assoc, List.takeWhile_append_dropWhile]
  · refine ⟨opening :: (t.takeWhile isBlank ++ (text ++ closing :: u.takeWhile isBlank)), ?_,
      .filled (blanks_takeWhile t) separated (blanks_takeWhile u)⟩
    have filled : t.dropWhile isBlank = text ++ elements.rest := split
    have closed : elements.rest = closing :: u := behind
    calc [opening] ++ t
        = opening :: (t.takeWhile isBlank ++ t.dropWhile isBlank) := by
          rw [List.takeWhile_append_dropWhile]
          rfl
      _ = opening :: (t.takeWhile isBlank ++ (text ++ closing :: u)) := by
          rw [filled, closed]
      _ = _ := by
          simp only [List.cons_append, List.append_assoc, List.takeWhile_append_dropWhile]

theorem SeparatedText.fronted (fronted : Fronted Element) : Fronted (SeparatedText Element) := by
  intro text xs separated
  cases separated with
  | one last => exact fronted _ _ last
  | more first blanks following =>
      obtain ⟨c, u, rfl, solid⟩ := fronted _ _ first
      exact ⟨c, _, rfl, solid⟩

theorem repeats_of_separated {bound : Nat} {closing : Char} {s t : List Char} {xs : List α}
    (accepts : Accepts bound p Element) (fronted : Fronted Element) (closes : Closing closing)
    (separated : SeparatedText Element s xs) (short : s.length < bound) :
    ∃ r others, xs = r.value :: others ∧ p.run (s ++ closing :: t) = .ok r ∧
      Repeats ((symbol ",").keepRight p) r.rest others (closing :: t) := by
  induction separated with
  | @one s x last =>
      have read := accepts s x (closing :: t) last (closes.apart t) short
      obtain ⟨error, refused⟩ := comma_refuses (p := p) closes.notComma t
      rw [dropWhile_solid closes.solid] at read
      exact ⟨_, [], rfl, read, .done refused⟩
  | @more s w rest x xs first blanks following ih =>
      simp only [List.length_append, List.length_cons] at short
      obtain ⟨r, others, rfl, next, loop⟩ := ih (by omega)
      have apart := apart_comma (w ++ (rest ++ closing :: t))
      have read := accepts s x _ first apart (by omega)
      rw [dropWhile_solid rfl] at read
      have comma : ((symbol ",").keepRight p).run (',' :: (w ++ (rest ++ closing :: t))) = .ok r := by
        refine run_comma_eq_ok_iff.mpr ⟨_, rfl, ?_⟩
        rw [(SeparatedText.fronted fronted).dropWhile following blanks]
        exact next
      refine ⟨⟨x, ',' :: (w ++ (rest ++ closing :: t))⟩, r.value :: others, rfl, ?_,
        .more comma loop⟩
      rw [List.append_assoc, List.cons_append, List.append_assoc]
      exact read

theorem run_sepBy_of_repeats {s t : List Char} {r : Parsed α} {xs : List α} (takes : Takes 0 p)
    (first : p.run s = .ok r) (loop : Repeats ((symbol ",").keepRight p) r.rest xs t) :
    (sepBy p (symbol ",")).run s = .ok ⟨r.value :: xs, t⟩ := by
  have round : Takes 1 ((symbol ",").keepRight p) := takes_comma.keepRight takes
  have ran := loop.run_many round.consumes
  rw [run_sepBy, run_sepBy1, first]
  simp only [Outcome.bind, ran, Outcome.map, Parsed.map, Outcome.recover]

theorem run_sepBy_of_separated {bound : Nat} {closing : Char} {s t : List Char} {xs : List α}
    (takes : Takes 0 p) (accepts : Accepts bound p Element) (fronted : Fronted Element)
    (closes : Closing closing) (separated : SeparatedText Element s xs) (short : s.length < bound) :
    (sepBy p (symbol ",")).run (s ++ closing :: t) = .ok ⟨xs, closing :: t⟩ := by
  obtain ⟨r, others, rfl, read, loop⟩ :=
    repeats_of_separated accepts fronted closes separated short
  exact run_sepBy_of_repeats takes read loop

theorem run_sepBy_of_refuses {s : List Char} (refuses : Refuses p s) :
    (sepBy p (symbol ",")).run s = .ok ⟨[], s⟩ := by
  obtain ⟨error, refused⟩ := refuses
  rw [run_sepBy, run_sepBy1, refused]
  rfl

theorem run_between_of_enclosed {bound : Nat} {left right : String} {opening closing : Char}
    {text t : List Char} {xs : List α} (opens : left.toList = [opening])
    (ends : right.toList = [closing]) (closes : Closing closing) (takes : Takes 0 p)
    (refuses : ∀ u, Refuses p (closing :: u)) (accepts : Accepts bound p Element)
    (fronted : Fronted Element) (enclosed : EnclosedText opening closing Element text xs)
    (short : text.length ≤ bound) :
    (between (symbol left) (symbol right) (sepBy p (symbol ","))).run (text ++ t) =
      .ok ⟨xs, t.dropWhile isBlank⟩ := by
  have last : ∀ u, (symbol right).run (closing :: u) = .ok ⟨right, u.dropWhile isBlank⟩ :=
    fun u => run_symbol_eq_ok_iff.mpr ⟨u, by rw [ends]; rfl, rfl⟩
  have first : ∀ u, (symbol left).run (opening :: u) = .ok ⟨left, u.dropWhile isBlank⟩ :=
    fun u => run_symbol_eq_ok_iff.mpr ⟨u, by rw [opens]; rfl, rfl⟩
  rw [between, run_keepLeft, run_keepRight]
  cases enclosed with
  | @empty w w' inside behind =>
      have none := run_sepBy_of_refuses (refuses (w' ++ t))
      simp only [List.cons_append, List.append_assoc, first, inside.dropWhile_append,
        dropWhile_solid closes.solid, Outcome.bind, none, last, behind.dropWhile_append, Outcome.map]
  | @filled w s w' xs inside elements behind =>
      simp only [List.length_cons, List.length_append] at short
      have read := run_sepBy_of_separated (t := w' ++ t) takes accepts fronted closes elements
        (by omega)
      have front := (SeparatedText.fronted fronted).dropWhile elements inside
        (closing :: (w' ++ t))
      simp only [List.cons_append, List.append_assoc, first, front, Outcome.bind, read, last,
        behind.dropWhile_append, Outcome.map]

end Descent.Json.Grammar
