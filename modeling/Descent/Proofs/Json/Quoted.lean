import Descent.Proofs.Json.Scalar

namespace Descent.Json.Grammar

open Descent.Parser

theorem run_escape_eq_ok_iff {code meaning : Char} {s : List Char} {r : Parsed Char} :
    (escape code meaning).run s = .ok r ↔ s = '\\' :: code :: r.rest ∧ r.value = meaning := by
  obtain ⟨value, rest⟩ := r
  simp only [escape, run_replace, run_keepRight, Outcome.map_eq_ok_iff, Outcome.bind_eq_ok_iff,
    run_character_eq_ok_iff]
  constructor
  · rintro ⟨q, ⟨p, ⟨first, _⟩, second, _⟩, built⟩
    cases built
    exact ⟨by rw [first, second], rfl⟩
  · rintro ⟨rfl, rfl⟩
    exact ⟨⟨code, rest⟩, ⟨⟨'\\', code :: rest⟩, ⟨rfl, rfl⟩, rfl, rfl⟩, rfl⟩

theorem escape_refuses {code meaning : Char} {s : List Char}
    (other : ∀ t, s ≠ '\\' :: code :: t) : Refuses (escape code meaning) s := by
  have ends := (agree_escape (s.length + 1) code meaning s (Nat.lt_succ_self _)).2
  refine (refuses_iff_not_ok ends).mpr ?_
  rintro ⟨r, ok⟩
  exact other r.rest (run_escape_eq_ok_iff.mp ok).1

theorem run_stringCharacter_escape {code meaning : Char} (s : List Char)
    (known : escapeMeaning? code = some meaning) :
    stringCharacter.run ('\\' :: code :: s) = .ok ⟨meaning, s⟩ := by
  unfold escapeMeaning? at known
  split at known
  all_goals cases known
  all_goals rfl

theorem not_escape {c code : Char} {s t : List Char} (known : escapeMeaning? code ≠ none)
    (notEscape : c = '\\' → ∀ code ∈ s.head?, escapeMeaning? code = none) :
    c :: s ≠ '\\' :: code :: t := by
  intro same
  cases same
  exact known (notEscape rfl code rfl)

theorem run_stringCharacter_plain {c : Char} {s : List Char} (notQuote : c ≠ '"')
    (notEscape : c = '\\' → ∀ code ∈ s.head?, escapeMeaning? code = none) :
    stringCharacter.run (c :: s) = .ok ⟨c, s⟩ := by
  have newline : Refuses (escape 'n' '\n') (c :: s) :=
    escape_refuses fun _ => not_escape (by decide) notEscape
  have tab : Refuses (escape 't' '\t') (c :: s) :=
    escape_refuses fun _ => not_escape (by decide) notEscape
  have quote : Refuses (escape '"' '"') (c :: s) :=
    escape_refuses fun _ => not_escape (by decide) notEscape
  have backslash : Refuses (escape '\\' '\\') (c :: s) :=
    escape_refuses fun _ => not_escape (by decide) notEscape
  rw [stringCharacter, choice_cons, newline.run_orElse, choice_cons, tab.run_orElse, choice_cons,
    quote.run_orElse, choice_cons, backslash.run_orElse, choice_cons, Parser.run_orElse,
    run_oneChar_cons, if_pos (bne_iff_ne.mpr notQuote)]
  rfl

theorem exists_run_stringCharacter {c : Char} (notQuote : c ≠ '"') (s : List Char) :
    ∃ r, stringCharacter.run (c :: s) = .ok r := by
  by_cases plain : c = '\\' → ∀ code ∈ s.head?, escapeMeaning? code = none
  · exact ⟨_, run_stringCharacter_plain notQuote plain⟩
  · push Not at plain
    obtain ⟨rfl, code, first, known⟩ := plain
    obtain ⟨meaning, known⟩ := Option.ne_none_iff_exists'.mp known
    obtain ⟨t, rfl⟩ := List.head?_eq_some_iff.mp first
    exact ⟨_, run_stringCharacter_escape t known⟩

theorem stringCharacter_refuses_quote (s : List Char) : Refuses stringCharacter ('"' :: s) :=
  ⟨_, rfl⟩

theorem stringCharacter_refuses_iff {s : List Char} :
    Refuses stringCharacter s ↔ ∀ c ∈ s.head?, c = '"' := by
  constructor
  · rintro ⟨error, refused⟩ c first
    obtain ⟨t, rfl⟩ := List.head?_eq_some_iff.mp first
    by_contra notQuote
    obtain ⟨r, ok⟩ := exists_run_stringCharacter notQuote t
    rw [ok] at refused
    cases refused
  · intro quote
    cases s with
    | nil => exact ⟨_, rfl⟩
    | cons c s =>
        rw [quote c rfl]
        exact stringCharacter_refuses_quote s

/-- The rounds of the loop are the rules for contents. -/
theorem stringCharacter_cases {s : List Char} {r : Parsed Char}
    (ok : stringCharacter.run s = .ok r) :
    (∃ code, escapeMeaning? code = some r.value ∧ s = '\\' :: code :: r.rest) ∨
    (r.value ≠ '"' ∧ (r.value = '\\' → ∀ code ∈ r.rest.head?, escapeMeaning? code = none) ∧
      s = r.value :: r.rest) := by
  cases s with
  | nil => cases ok
  | cons c s =>
      by_cases quote : c = '"'
      · obtain ⟨error, refused⟩ := stringCharacter_refuses_quote s
        rw [quote, refused] at ok
        cases ok
      · by_cases plain : c = '\\' → ∀ code ∈ s.head?, escapeMeaning? code = none
        · rw [run_stringCharacter_plain quote plain] at ok
          cases ok
          exact Or.inr ⟨quote, plain, rfl⟩
        · push Not at plain
          obtain ⟨backslash, code, first, known⟩ := plain
          obtain ⟨meaning, known⟩ := Option.ne_none_iff_exists'.mp known
          obtain ⟨t, rfl⟩ := List.head?_eq_some_iff.mp first
          rw [backslash, run_stringCharacter_escape t known] at ok
          cases ok
          rw [backslash]
          exact Or.inl ⟨code, known, rfl⟩

theorem content_of_repeats {s t : List Char} {cs : List Char}
    (loop : Repeats stringCharacter s cs ('"' :: t)) : ∃ u, s = u ++ t ∧ ContentText u cs := by
  generalize closed : '"' :: t = last at loop
  induction loop with
  | done stop => exact ⟨['"'], closed.symm, .close⟩
  | @more s _ r cs found loop ih =>
      obtain ⟨u, split, content⟩ := ih closed
      rcases stringCharacter_cases found with ⟨code, known, rfl⟩ | ⟨notQuote, notEscape, shape⟩
      · refine ⟨'\\' :: code :: u, ?_, .escape known content⟩
        rw [split]
        rfl
      · refine ⟨r.value :: u, ?_, .plain notQuote ?_ content⟩
        · rw [shape, split]
          rfl
        · intro backslash code first
          refine notEscape backslash code ?_
          rw [split, List.head?_append, Option.mem_def.mp first]
          rfl

theorem repeats_of_content {u cs : List Char} (content : ContentText u cs) (t : List Char) :
    Repeats stringCharacter (u ++ t) cs ('"' :: t) := by
  induction content with
  | close =>
      obtain ⟨error, refused⟩ := stringCharacter_refuses_quote t
      exact .done refused
  | escape known rest ih => exact .more (run_stringCharacter_escape _ known) ih
  | @plain c s cs notQuote notEscape rest ih =>
      refine .more (run_stringCharacter_plain notQuote ?_) ih
      intro backslash code first
      refine notEscape backslash code ?_
      cases s with
      | nil => cases rest
      | cons d s => exact first

theorem string_reads : Reads string StringText := by
  intro s r ok
  simp only [string, run_keepLeft, run_map, run_keepRight, run_skipWhitespace,
    Outcome.bind_eq_ok_iff, Outcome.map_eq_ok_iff, run_character_eq_ok_iff] at ok
  obtain ⟨_, ⟨_, ⟨content, ⟨opened, ⟨opening, _⟩, units⟩, closed, ⟨closing, _⟩, rfl⟩, rfl⟩, skipped,
    done, rfl⟩ := ok
  cases done
  have loop := repeats_of_run_many units
  rw [closing] at loop
  obtain ⟨u, split, shape⟩ := content_of_repeats loop
  refine ⟨'"' :: (u ++ closed.rest.takeWhile isBlank), ?_, .mk shape (blanks_takeWhile _)⟩
  simp only [Parsed.map, List.cons_append, List.append_assoc, List.takeWhile_append_dropWhile]
  rw [opening, split]

theorem run_string {text : List Char} {v : String} (shape : StringText text v) (t : List Char) :
    string.run (text ++ t) = .ok ⟨v, t.dropWhile isBlank⟩ := by
  obtain @⟨u, cs, w, content, blanks⟩ := shape
  have loop : Repeats stringCharacter (u ++ (w ++ t)) cs ('"' :: (w ++ t)) :=
    repeats_of_content content (w ++ t)
  have units : (many stringCharacter).run (u ++ (w ++ t)) = .ok ⟨cs, '"' :: (w ++ t)⟩ :=
    loop.run_many takes_stringCharacter.consumes
  rw [List.cons_append, List.append_assoc]
  simp only [string, run_keepLeft, run_map, run_keepRight, run_skipWhitespace, run_character_cons,
    Outcome.bind, Outcome.map, units, Parsed.map, blanks.dropWhile_append]

end Descent.Json.Grammar
