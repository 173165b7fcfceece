import Mathlib.Algebra.Group.Nat.Even
import Descent.Proofs.Json.Failure
import Descent.Proofs.Json.Tokens

namespace Descent.Json

def backslashRun (u : List Char) : Nat := (u.reverse.takeWhile (· == '\\')).length

/-- Behind an opening quote, `u` comes up to a quote that is not escaped. -/
structure Closes (t u rest : List Char) : Prop where
  split : t = u ++ '"' :: rest
  even : Even (backslashRun u)

structure FirstClose (t u rest : List Char) : Prop where
  closes : Closes t u rest
  first : ∀ v w, Closes t v w → u.length ≤ v.length

/-- The text in front of the closing quote and the text behind it, in one pass. -/
def closeFrom (place : Place) : List Char → Option (List Char × List Char)
  | [] => none
  | c :: s =>
    if place = .inside ∧ c = '"' then some ([], s)
    else (closeFrom (place.next c) s).map fun found => (c :: found.1, found.2)

def unescaped : List Char → List Char
  | '\\' :: 'n' :: s => '\n' :: unescaped s
  | '\\' :: 't' :: s => '\t' :: unescaped s
  | '\\' :: '"' :: s => '"' :: unescaped s
  | '\\' :: '\\' :: s => '\\' :: unescaped s
  | c :: s => c :: unescaped s
  | [] => []

/-- What a scanner makes of the text behind an opening quote. -/
def scanned (t : List Char) : Outcome (Parsed String) :=
  match closeFrom .inside t with
  | some (u, rest) => .ok ⟨String.ofList (unescaped u), rest.dropWhile isBlank⟩
  | none => .fail ⟨"any character", "end of input"⟩

/-- Where a scan stands behind a text in which nothing has closed. -/
def Place.behind (v : List Char) : Place := if Even (backslashRun v) then .inside else .escaped

/-- No quote of `u` closes, given the text in front of it. -/
def Unclosed (v u : List Char) : Prop :=
  ∀ x y, u = x ++ '"' :: y → ¬Even (backslashRun (v ++ x))

theorem backslashRun_concat (u : List Char) (c : Char) :
    backslashRun (u ++ [c]) = if c = '\\' then backslashRun u + 1 else 0 := by
  by_cases backslash : c = '\\'
  · simp [backslashRun, backslash]
  · simp [backslashRun, backslash]

theorem Place.behind_nil : Place.behind [] = .inside := if_pos Even.zero

theorem Place.behind_eq_inside_iff {v : List Char} :
    Place.behind v = .inside ↔ Even (backslashRun v) := by
  unfold Place.behind
  split
  · simp [*]
  · simp [*]

theorem Place.next_behind {v : List Char} {c : Char} (goesOn : ¬(Place.behind v = .inside ∧ c = '"')) :
    (Place.behind v).next c = Place.behind (v ++ [c]) := by
  unfold Place.behind at goesOn ⊢
  rw [backslashRun_concat]
  by_cases even : Even (backslashRun v)
  · have notQuote : c ≠ '"' := fun quote => goesOn ⟨if_pos even, quote⟩
    by_cases backslash : c = '\\'
    · simp [Place.next, even, backslash, Nat.even_add_one]
    · simp [Place.next, even, backslash, notQuote]
  · by_cases backslash : c = '\\'
    · simp [Place.next, even, backslash, Nat.even_add_one]
    · simp [Place.next, even, backslash]

theorem unclosed_nil (v : List Char) : Unclosed v [] := by
  intro x y split
  cases x <;> cases split

theorem unclosed_cons {v s : List Char} {c : Char} :
    Unclosed v (c :: s) ↔ ¬(Place.behind v = .inside ∧ c = '"') ∧ Unclosed (v ++ [c]) s := by
  rw [Place.behind_eq_inside_iff]
  constructor
  · intro unclosed
    refine ⟨?_, ?_⟩
    · rintro ⟨even, rfl⟩
      have odd := unclosed [] s rfl
      rw [List.append_nil] at odd
      exact odd even
    · rintro x y rfl
      rw [List.append_assoc]
      exact unclosed (c :: x) y rfl
  · rintro ⟨goesOn, unclosed⟩ x y split
    cases x with
    | nil =>
        cases split
        rw [List.append_nil]
        exact fun even => goesOn ⟨even, rfl⟩
    | cons d x =>
        cases split
        have odd := unclosed x y rfl
        rw [List.append_assoc] at odd
        exact odd

theorem closeFrom_eq_none_iff {v s : List Char} :
    closeFrom (Place.behind v) s = none ↔ Unclosed v s := by
  induction s generalizing v with
  | nil => exact iff_of_true rfl (unclosed_nil v)
  | cons c s ih =>
      rw [closeFrom, unclosed_cons]
      by_cases closes : Place.behind v = .inside ∧ c = '"'
      · simp [closes]
      · rw [if_neg closes, Option.map_eq_none_iff, Place.next_behind closes, ih]
        exact (and_iff_right closes).symm

theorem split_of_closeFrom {v s u rest : List Char}
    (found : closeFrom (Place.behind v) s = some (u, rest)) :
    s = u ++ '"' :: rest ∧ Even (backslashRun (v ++ u)) ∧ Unclosed v u := by
  induction s generalizing v u with
  | nil => cases found
  | cons c s ih =>
      rw [closeFrom] at found
      by_cases closes : Place.behind v = .inside ∧ c = '"'
      · rw [if_pos closes] at found
        obtain ⟨inside, rfl⟩ := closes
        cases found
        refine ⟨rfl, ?_, unclosed_nil v⟩
        rw [List.append_nil]
        exact Place.behind_eq_inside_iff.mp inside
      · rw [if_neg closes, Place.next_behind closes] at found
        obtain ⟨_, later, built⟩ := Option.map_eq_some_iff.mp found
        cases built
        obtain ⟨split, even, unclosed⟩ := ih later
        rw [List.append_assoc] at even
        exact ⟨congrArg (c :: ·) split, even, unclosed_cons.mpr ⟨closes, unclosed⟩⟩

theorem closeFrom_append {v u : List Char} (unclosed : Unclosed v u) (t : List Char) :
    closeFrom (Place.behind v) (u ++ t) =
      (closeFrom (Place.behind (v ++ u)) t).map fun found => (u ++ found.1, found.2) := by
  induction u generalizing v with
  | nil =>
      rw [List.append_nil]
      exact Option.map_id'.symm
  | cons c u ih =>
      obtain ⟨goesOn, later⟩ := unclosed_cons.mp unclosed
      rw [List.cons_append, closeFrom, if_neg goesOn, Place.next_behind goesOn, ih later,
        Option.map_map, List.append_assoc]
      rfl

theorem closeFrom_eq_some_iff {v s u rest : List Char} :
    closeFrom (Place.behind v) s = some (u, rest) ↔
      s = u ++ '"' :: rest ∧ Even (backslashRun (v ++ u)) ∧ Unclosed v u := by
  constructor
  · exact split_of_closeFrom
  · rintro ⟨rfl, even, unclosed⟩
    rw [closeFrom_append unclosed, Place.behind_eq_inside_iff.mpr even]
    simp [closeFrom]

theorem firstClose_iff {t u rest : List Char} :
    FirstClose t u rest ↔ t = u ++ '"' :: rest ∧ Even (backslashRun u) ∧ Unclosed [] u := by
  constructor
  · rintro ⟨⟨split, even⟩, first⟩
    refine ⟨split, even, ?_⟩
    rintro x y rfl evenEarlier
    have closes : Closes t x (y ++ '"' :: rest) :=
      ⟨by rw [split, List.append_assoc]; rfl, evenEarlier⟩
    have bound := first x _ closes
    rw [List.length_append, List.length_cons] at bound
    omega
  · rintro ⟨split, even, unclosed⟩
    refine ⟨⟨split, even⟩, ?_⟩
    rintro v w ⟨other, evenOther⟩
    by_contra shorter
    have front : v ++ ['"'] <+: t := ⟨w, by rw [other, List.append_assoc]; rfl⟩
    have inside : v ++ ['"'] <+: u := by
      refine List.prefix_of_prefix_length_le front ⟨_, split.symm⟩ ?_
      rw [List.length_append]
      exact Nat.lt_of_not_le shorter
    obtain ⟨y, rfl⟩ := inside
    exact unclosed v y (List.append_assoc v ['"'] y) evenOther

theorem closeFrom_eq_some_iff_firstClose {t u rest : List Char} :
    closeFrom .inside t = some (u, rest) ↔ FirstClose t u rest := by
  rw [← Place.behind_nil, closeFrom_eq_some_iff, List.nil_append, firstClose_iff]

theorem closeFrom_eq_none_iff_not_closes {t : List Char} :
    closeFrom .inside t = none ↔ ¬∃ u rest, Closes t u rest := by
  rw [← Place.behind_nil, closeFrom_eq_none_iff]
  constructor
  · rintro unclosed ⟨u, rest, split, even⟩
    exact unclosed u rest split even
  · intro never u rest split even
    exact never ⟨u, rest, split, even⟩

theorem scanned_eq_ok_iff {t : List Char} {r : Parsed String} :
    scanned t = .ok r ↔ ∃ u rest, FirstClose t u rest ∧
      r = ⟨String.ofList (unescaped u), rest.dropWhile isBlank⟩ := by
  simp only [← closeFrom_eq_some_iff_firstClose]
  unfold scanned
  cases closeFrom .inside t with
  | none => simp
  | some found =>
      obtain ⟨u, rest⟩ := found
      constructor
      · intro ok
        exact ⟨u, rest, rfl, (Outcome.ok.inj ok).symm⟩
      · rintro ⟨u', rest', same, rfl⟩
        cases same
        rfl

theorem scanned_eq_fail_iff {t : List Char} {error : Mismatch} :
    scanned t = .fail error ↔
      (¬∃ u rest, Closes t u rest) ∧ error = ⟨"any character", "end of input"⟩ := by
  rw [← closeFrom_eq_none_iff_not_closes]
  unfold scanned
  cases closeFrom .inside t with
  | none => simp [eq_comm]
  | some found => simp

theorem exists_scanned_iff {t : List Char} :
    (∃ r, scanned t = .ok r) ↔ ∃ u rest, Closes t u rest := by
  constructor
  · rintro ⟨r, ok⟩
    obtain ⟨u, rest, first, _⟩ := scanned_eq_ok_iff.mp ok
    exact ⟨u, rest, first.closes⟩
  · intro closes
    have found : closeFrom .inside t ≠ none := fun none =>
      closeFrom_eq_none_iff_not_closes.mp none closes
    obtain ⟨⟨u, rest⟩, pass⟩ := Option.ne_none_iff_exists'.mp found
    exact ⟨_, scanned_eq_ok_iff.mpr ⟨u, rest, closeFrom_eq_some_iff_firstClose.mp pass, rfl⟩⟩

theorem unescaped_escape {code meaning : Char} (known : escapeMeaning? code = some meaning)
    (s : List Char) : unescaped ('\\' :: code :: s) = meaning :: unescaped s := by
  unfold escapeMeaning? at known
  split at known
  all_goals cases known
  all_goals rfl

theorem unescaped_plain {c : Char} {s : List Char}
    (notEscape : c = '\\' → ∀ code ∈ s.head?, escapeMeaning? code = none) :
    unescaped (c :: s) = c :: unescaped s := by
  rw [unescaped]
  all_goals
    intro rest backslash split
    subst split
    cases notEscape backslash _ rfl

theorem closeFrom_escape (code : Char) (s : List Char) :
    closeFrom .inside ('\\' :: code :: s) =
      (closeFrom .inside s).map fun found => ('\\' :: code :: found.1, found.2) := by
  simp [closeFrom, Place.next, Function.comp_def]

theorem closeFrom_plain {c : Char} {s : List Char} (notQuote : c ≠ '"')
    (notEscape : c = '\\' → ∀ code ∈ s.head?, escapeMeaning? code = none) :
    closeFrom .inside (c :: s) =
      (closeFrom .inside s).map fun found => (c :: found.1, found.2) := by
  by_cases backslash : c = '\\'
  · cases s with
    | nil => simp [closeFrom, backslash]
    | cons d s =>
        have alone : escapeMeaning? d = none := notEscape backslash d rfl
        have plainQuote : d ≠ '"' := by
          rintro rfl
          cases alone
        have plainBackslash : d ≠ '\\' := by
          rintro rfl
          cases alone
        rw [backslash, closeFrom_escape]
        simp [closeFrom, Place.next, plainQuote, plainBackslash, Function.comp_def]
  · simp [closeFrom, Place.next, notQuote, backslash]

end Descent.Json

namespace Descent.Json.Grammar

open Descent.Parser

/-- The rounds of the loop and the pass go over the same characters. -/
theorem scan_of_repeats {s cs rest : List Char} (loop : Repeats stringCharacter s cs rest) :
    ∃ u, s = u ++ rest ∧ cs = unescaped u ∧ closeFrom .inside s =
      (closeFrom .inside rest).map fun found => (u ++ found.1, found.2) := by
  induction loop with
  | done stop => exact ⟨[], rfl, rfl, Option.map_id'.symm⟩
  | @more s t r cs found loop ih =>
      obtain ⟨u, split, rfl, pass⟩ := ih
      rcases stringCharacter_cases found with ⟨code, known, rfl⟩ | ⟨notQuote, notEscape, shape⟩
      · refine ⟨'\\' :: code :: u, by rw [split]; rfl, (unescaped_escape known u).symm, ?_⟩
        rw [closeFrom_escape, pass, Option.map_map]
        rfl
      · have plain : r.value = '\\' → ∀ code ∈ u.head?, escapeMeaning? code = none := by
          intro backslash code first
          refine notEscape backslash code ?_
          rw [split, List.head?_append, Option.mem_def.mp first]
          rfl
        refine ⟨r.value :: u, ?_, (unescaped_plain plain).symm, ?_⟩
        · rw [shape, split]
          rfl
        · rw [shape, closeFrom_plain notQuote notEscape, pass, Option.map_map]
          rfl

theorem exists_run_units (t : List Char) : ∃ r, (many stringCharacter).run t = .ok r :=
  exists_run_of_certain (fun bound => AgreeBelow.many takes_stringCharacter
    (agree_stringCharacter bound)) (many_ne_fail stringCharacter) t

/-- Five alternatives for each character come to the same as one pass. -/
theorem run_string_eq_scanned (t : List Char) : string.run ('"' :: t) = scanned t := by
  obtain ⟨r, units⟩ := exists_run_units t
  have loop := repeats_of_run_many units
  have last := stringCharacter_refuses_iff.mp loop.refuses
  obtain ⟨u, split, meaning, pass⟩ := scan_of_repeats loop
  obtain ⟨cs, rest⟩ := r
  rw [scanned, pass]
  simp only [string, run_keepLeft, run_map, run_keepRight, run_character_cons, Outcome.bind, units]
  cases rest with
  | nil => rfl
  | cons c rest =>
      obtain rfl : c = '"' := last c rfl
      obtain rfl : cs = unescaped u := meaning
      simp [closeFrom, run_character_cons, run_skipWhitespace, Outcome.map, Parsed.map]

example : scanned "a\\\"b\\\\\" c".toList = .ok ⟨"a\"b\\", "c".toList⟩ := rfl

/-- A string is what one pass finds. It is read exactly where some quote stands behind an even number
of backslashes. The first such quote ends it, its text is what stands in between with the escapes
replaced, and the blanks behind it are skipped. Otherwise the text has come to its end. -/
theorem string_ends_at_first_even_quote (t : List Char) :
    string.run ('"' :: t) = scanned t ∧
    ((∃ r, string.run ('"' :: t) = .ok r) ↔ ∃ u rest, Closes t u rest) ∧
    (∀ r, string.run ('"' :: t) = .ok r ↔ ∃ u rest, FirstClose t u rest ∧
      r = ⟨String.ofList (unescaped u), rest.dropWhile isBlank⟩) ∧
    (∀ error, string.run ('"' :: t) = .fail error ↔
      (¬∃ u rest, Closes t u rest) ∧ error = ⟨"any character", "end of input"⟩) := by
  rw [run_string_eq_scanned]
  exact ⟨rfl, exists_scanned_iff, fun r => scanned_eq_ok_iff, fun error => scanned_eq_fail_iff⟩

end Descent.Json.Grammar
