import Descent.Proofs.Json.Exact
import Descent.Proofs.Json.Tokens

/-!
A derivation uses the blanks of a text only to skip them, so it carries over to any other layout of the
same tokens.
-/

namespace Descent.Json

variable {α : Type} {Text : List Char → α → Prop} {Element : List Char → α → Prop}

/-- In every layout the tokens are a text of this kind with this meaning, and stay the same tokens. -/
structure Spells (Text : List Char → α → Prop) (ts : List (List Char)) (a : α) : Prop where
  phrase : Phrase ts
  reads : ∀ s, LaidOut ts s → Text s a

/-- Texts of this kind that are short enough are layouts of tokens that spell the same. -/
def Spelled (bound : Nat) (Text : List Char → α → Prop) : Prop :=
  ∀ s a, Text s a → s.length < bound → ∃ ts, LaidOut ts s ∧ Spells Text ts a

theorem spells_single {token : List Char} {a : α} (shape : TokenText token)
    (text : ∀ w, Blanks w → Text (token ++ w) a) : Spells Text [token] a := by
  refine ⟨.single shape, ?_⟩
  intro s laid
  obtain ⟨w, rfl, blanks⟩ := laid.split_single
  exact text w blanks

theorem Spells.imp {β : Type} {Text' : List Char → β → Prop} {ts : List (List Char)} {a : α} {b : β}
    (spells : Spells Text ts a) (wider : ∀ s, Text s a → Text' s b) : Spells Text' ts b :=
  ⟨spells.phrase, fun s laid => wider s (spells.reads s laid)⟩

theorem NumberText.spelled {s : List Char} {x : Binary64} (number : NumberText s x) :
    ∃ ts, LaidOut ts s ∧ Spells NumberText ts x := by
  obtain ⟨shape, meaning, blanks⟩ := number
  exact ⟨_, laidOut_single blanks, spells_single (.numeral shape) fun w => .mk shape meaning⟩

theorem BooleanText.spelled {s : List Char} {b : Bool} (boolean : BooleanText s b) :
    ∃ ts, LaidOut ts s ∧ Spells BooleanText ts b := by
  cases boolean with
  | @yes w blanks =>
      have laid : LaidOut ["true".toList] ("true".toList ++ w) := laidOut_single blanks
      exact ⟨_, laid, spells_single .yes fun w => .yes⟩
  | @no w blanks =>
      have laid : LaidOut ["false".toList] ("false".toList ++ w) := laidOut_single blanks
      exact ⟨_, laid, spells_single .no fun w => .no⟩

theorem StringText.spelled {s : List Char} {v : String} (string : StringText s v) :
    ∃ ts, LaidOut ts s ∧ Spells StringText ts v := by
  obtain @⟨u, cs, w, content, blanks⟩ := string
  have laid : LaidOut ['"' :: u] ('"' :: u ++ w) := laidOut_single blanks
  exact ⟨_, laid, spells_single (.literal content) fun w => .mk content⟩

/-- A mark joins two parts into one whole, whatever blanks follow it. -/
theorem Spells.joined {β γ : Type} {Front : List Char → α → Prop} {Back : List Char → β → Prop}
    {Whole : List Char → γ → Prop} {c : Char} {left right : List (List Char)} {a : α} {b : β} {g : γ}
    (front : Spells Front left a) (structural : isMark c = true) (back : Spells Back right b)
    (whole : ∀ s w t, Front s a → Blanks w → Back t b → Whole (s ++ c :: (w ++ t)) g) :
    Spells Whole (left ++ [c] :: right) g := by
  refine ⟨.joined front.phrase structural back.phrase, ?_⟩
  intro u laid
  obtain ⟨s, w, t, rfl, laidFront, blanks, laidBack⟩ := laid.split_mark
  exact whole s w t (front.reads s laidFront) blanks (back.reads t laidBack)

theorem SeparatedText.spelled {bound : Nat} (element : Spelled bound Element) :
    Spelled bound (SeparatedText Element) := by
  intro s xs separated short
  induction separated with
  | one last =>
      obtain ⟨ts, laid, spells⟩ := element _ _ last short
      exact ⟨ts, laid, spells.imp fun s => .one⟩
  | @more s w rest x xs first blanks following ih =>
      simp only [List.length_append, List.length_cons] at short
      obtain ⟨ts, laid, spells⟩ := element s x first (by omega)
      obtain ⟨ts', laid', spells'⟩ := ih (by omega)
      exact ⟨ts ++ [','] :: ts', laid.append (.cons blanks laid'),
        spells.joined rfl spells' fun s w t => .more⟩

theorem laidOut_enclosed {opening closing : Char} {ts : List (List Char)} {w s w' : List Char}
    (inside : Blanks w) (laid : LaidOut ts s) (behind : Blanks w') :
    LaidOut ([opening] :: (ts ++ [[closing]])) (opening :: (w ++ (s ++ closing :: w'))) :=
  .cons inside (laid.append (laidOut_single behind))

theorem LaidOut.split_enclosed {opening closing : Char} {ts : List (List Char)} {t : List Char}
    (laid : LaidOut ([opening] :: (ts ++ [[closing]])) t) :
    ∃ w s w', t = opening :: (w ++ (s ++ closing :: w')) ∧ Blanks w ∧ LaidOut ts s ∧ Blanks w' := by
  cases laid with
  | @cons _ w t _ inside rest =>
      obtain ⟨s, t, rfl, front, back⟩ := rest.split
      obtain ⟨w', rfl, behind⟩ := back.split_single
      exact ⟨w, s, w', rfl, inside, front, behind⟩

theorem Phrase.enclosed {opening closing : Char} {ts : List (List Char)} (phrase : Phrase ts)
    (opens : isMark opening = true) (closes : isMark closing = true) :
    Phrase ([opening] :: (ts ++ [[closing]])) :=
  .joined .nil opens (.joined phrase closes .nil)

theorem EnclosedText.spelled {bound : Nat} {opening closing : Char} (opens : isMark opening = true)
    (closes : isMark closing = true) (element : Spelled bound Element) :
    Spelled (bound + 1) (EnclosedText opening closing Element) := by
  intro t xs enclosed short
  cases enclosed with
  | @empty w w' inside behind =>
      refine ⟨_, laidOut_enclosed inside .nil behind, Phrase.nil.enclosed opens closes, ?_⟩
      intro t laid
      obtain ⟨w, s, w', rfl, inside, nothing, behind⟩ := laid.split_enclosed
      cases nothing
      exact .empty inside behind
  | @filled w s w' xs inside elements behind =>
      simp only [List.length_append, List.length_cons] at short
      obtain ⟨ts, laid, spells⟩ := SeparatedText.spelled element s xs elements (by omega)
      refine ⟨_, laidOut_enclosed inside laid behind, spells.phrase.enclosed opens closes, ?_⟩
      intro t laid
      obtain ⟨w, s, w', rfl, inside, elements, behind⟩ := laid.split_enclosed
      exact .filled inside (spells.reads s elements) behind

theorem EntryText.spelled {bound : Nat} {Value : List Char → Json → Prop}
    (value : Spelled bound Value) : Spelled bound (EntryText Value) := by
  rintro _ _ @⟨k, w, s, key, v, name, blanks, bound⟩ short
  simp only [List.length_append, List.length_cons] at short
  obtain ⟨ts, laid, spells⟩ := name.spelled
  obtain ⟨ts', laid', spells'⟩ := value s v bound (by omega)
  exact ⟨ts ++ [':'] :: ts', laid.append (.cons blanks laid'),
    spells.joined rfl spells' fun s w t => .mk⟩

/-- The induction is on the length of the text, since a value that a later one replaces is no part of
the meaning. -/
theorem ValueText.spelled (bound : Nat) : Spelled bound ValueText := by
  induction bound with
  | zero =>
      intro s v value short
      exact absurd short (Nat.not_lt_zero _)
  | succ bound ih =>
      intro s v value short
      cases value with
      | number text =>
          obtain ⟨ts, laid, spells⟩ := text.spelled
          exact ⟨ts, laid, spells.imp fun s => .number⟩
      | boolean text =>
          obtain ⟨ts, laid, spells⟩ := text.spelled
          exact ⟨ts, laid, spells.imp fun s => .boolean⟩
      | string text =>
          obtain ⟨ts, laid, spells⟩ := text.spelled
          exact ⟨ts, laid, spells.imp fun s => .string⟩
      | array text =>
          obtain ⟨ts, laid, spells⟩ := EnclosedText.spelled rfl rfl ih s _ text short
          exact ⟨ts, laid, spells.imp fun s => .array⟩
      | object text last =>
          obtain ⟨ts, laid, spells⟩ :=
            EnclosedText.spelled rfl rfl (EntryText.spelled ih) s _ text short
          exact ⟨ts, laid, spells.imp fun s text => .object text last⟩

theorem DocumentText.spelled {text : List Char} {v : Json} (document : DocumentText text v) :
    ∃ w s, text = w ++ s ∧ Blanks w ∧ LaidOut (tokens text) s ∧ Spells ValueText (tokens text) v := by
  obtain @⟨w, s, _, blanks, value⟩ := document
  obtain ⟨ts, laid, spells⟩ := ValueText.spelled (s.length + 1) s v value (Nat.lt_succ_self _)
  rw [spells.phrase.tokens_of_laidOut blanks laid]
  exact ⟨w, s, rfl, blanks, laid, spells⟩

theorem Spells.relaid {ts : List (List Char)} {v : Json} (spells : Spells ValueText ts v)
    {w s : List Char} (blanks : Blanks w) (laid : LaidOut ts s) :
    read (String.ofList (w ++ s)) = .ok v ∧ tokens (w ++ s) = ts := by
  have document : DocumentText (w ++ s) v := .mk blanks (spells.reads s laid)
  refine ⟨?_, spells.phrase.tokens_of_laidOut blanks laid⟩
  rw [read, String.toList_ofList]
  exact Grammar.parse_of_documentText document

/-- A text that is read consists of its tokens and of blanks around them, and of any two neighbours one
is a mark. Any other blanks may stand in their place, or none, and neither the meaning nor a token
changes. -/
theorem read_of_layout (text : String) (v : Json) (accepted : read text = .ok v) :
    (∃ w s, text.toList = w ++ s ∧ Blanks w ∧ LaidOut (tokens text.toList) s) ∧
      (∀ token ∈ tokens text.toList, TokenText token) ∧ Phrase (tokens text.toList) ∧
      (∀ w s, Blanks w → LaidOut (tokens text.toList) s →
        read (String.ofList (w ++ s)) = .ok v ∧ tokens (w ++ s) = tokens text.toList) ∧
      read (String.ofList (stripped text.toList)) = .ok v := by
  have document : DocumentText text.toList v := Grammar.documentText_of_parse accepted
  obtain ⟨w, s, split, blanks, laid, spells⟩ := document.spelled
  refine ⟨⟨w, s, split, blanks, laid⟩, spells.phrase.each, spells.phrase, ?_, ?_⟩
  · intro w s blanks laid
    exact spells.relaid blanks laid
  · have laid := laidOut_flatten (tokens text.toList)
    rw [flatten_tokens] at laid
    exact (spells.relaid blanks_nil laid).1

/-- An array on one line and on several. The blank and the comma in its string are no layout. -/
theorem read_of_layout_on_lines :
    let v := Json.array [.string "a ,\"b", .number ⟨false, 0x4028000000000000⟩]
    read "[ \"a ,\\\"b\" ,12 ]" = .ok v ∧
      LaidOut (tokens "[ \"a ,\\\"b\" ,12 ]".toList)
        "[\n\t\"a ,\\\"b\",\n\t12\n]\n".toList ∧
      read "[\n\t\"a ,\\\"b\",\n\t12\n]\n" = .ok v ∧ read "[\"a ,\\\"b\",12]" = .ok v := by
  intro v
  have numeral : NumberText "12 ".toList ⟨false, 0x4028000000000000⟩ := by
    have ran : Grammar.number.run "12 ".toList = .ok ⟨⟨false, 0x4028000000000000⟩, []⟩ := by
      decide +kernel
    obtain ⟨s, split, shape⟩ := Grammar.number_reads _ _ ran
    rw [split, List.append_nil]
    exact shape
  have literal : StringText "\"a ,\\\"b\" ".toList "a ,\"b" := by
    have ran : Grammar.string.run "\"a ,\\\"b\" ".toList = .ok ⟨"a ,\"b", []⟩ := rfl
    obtain ⟨s, split, shape⟩ := Grammar.string_reads _ _ ran
    rw [split, List.append_nil]
    exact shape
  have elements := SeparatedText.more (ValueText.string literal) blanks_nil
    (.one (ValueText.number numeral))
  have gap : Blanks [' '] := blanks_takeWhile [' ']
  have value := ValueText.array (.filled gap elements blanks_nil)
  have accepted : read "[ \"a ,\\\"b\" ,12 ]" = .ok v :=
    Grammar.parse_of_documentText (.mk blanks_nil value)
  have scan : tokens "[ \"a ,\\\"b\" ,12 ]".toList =
      ["[".toList, "\"a ,\\\"b\"".toList, ",".toList, "12".toList, "]".toList] := rfl
  have line : Blanks ['\n', '\t'] := blanks_takeWhile ['\n', '\t']
  have last : Blanks ['\n'] := blanks_takeWhile ['\n']
  have laid : LaidOut (tokens "[ \"a ,\\\"b\" ,12 ]".toList)
      "[\n\t\"a ,\\\"b\",\n\t12\n]\n".toList := by
    rw [scan]
    exact .cons line (.cons blanks_nil (.cons line (.cons last (.cons last .nil))))
  obtain ⟨_, _, _, relaid, minified⟩ := read_of_layout _ v accepted
  exact ⟨accepted, laid, (relaid [] _ blanks_nil laid).1, minified⟩

end Descent.Json
