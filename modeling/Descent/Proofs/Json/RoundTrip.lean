import Descent.Json.Display
import Descent.Proofs.Binary64.ReadBack
import Descent.Proofs.Json.Exact

namespace Descent.Json

theorem contentText_escaped (cs : List Char) : ContentText (cs.flatMap escaped ++ ['"']) cs := by
  induction cs with
  | nil => exact .close
  | cons c cs ih =>
      rw [List.flatMap_cons, List.append_assoc]
      unfold escaped
      split
      · exact .escape (by rfl) ih
      · exact .escape (by rfl) ih
      · exact .escape (by rfl) ih
      · exact .escape (by rfl) ih
      · rename_i quote backslash
        exact .plain quote (fun same => absurd same backslash) ih

theorem stringText_quoted (text : String) : StringText (quoted text) text := by
  have shape := StringText.mk (contentText_escaped text.toList) blanks_nil
  rw [List.append_nil, String.ofList_toList] at shape
  exact shape

theorem numberText_display {x : Binary64} (finite : x.isFinite = true) :
    NumberText x.display x :=
  (Binary64.numeralText_display finite).numberText (Binary64.read_display finite)

theorem enclosedText_of_separated {α : Type} {opening closing : Char}
    {Element : List Char → α → Prop} {text : List Char} {xs : List α}
    (separated : SeparatedText Element text xs) :
    EnclosedText opening closing Element (opening :: (text ++ [closing])) xs :=
  .filled blanks_nil separated blanks_nil

theorem entryText_of_quoted {Value : List Char → Json → Prop} {text : List Char} {v : Json}
    (key : String) (shape : Value text v) :
    EntryText Value (quoted key ++ ':' :: text) (key, v) :=
  .mk (stringText_quoted key) blanks_nil shape

mutual

/-- The text of a tree means the tree. -/
theorem valueText_display (v : Json) (ordered : v.Ordered)
    (finite : v.allNumbers Binary64.isFinite = true) : ValueText v.display v := by
  match v with
  | .number x => exact .number (numberText_display finite)
  | .boolean true => exact .boolean (.yes blanks_nil)
  | .boolean false => exact .boolean (.no blanks_nil)
  | .string text => exact .string (stringText_quoted text)
  | .array [] => exact .array (.empty blanks_nil blanks_nil)
  | .array (item :: items) =>
      obtain ⟨here, there⟩ := ordered
      simp only [allNumbers, allNumbersItems, Bool.and_eq_true] at finite
      have first := valueText_display item here finite.1
      obtain ⟨text, shape, separated⟩ := separatedText_displayItems items there finite.2 first
      rw [display, shape, ← List.append_assoc]
      exact .array (enclosedText_of_separated separated)
  | .object [] => exact .object (.empty blanks_nil blanks_nil) (Entries.Ascending.collects ordered.1)
  | .object ((key, value) :: entries) =>
      obtain ⟨ascending, here, there⟩ := ordered
      simp only [allNumbers, allNumbersEntries, Bool.and_eq_true] at finite
      have first := entryText_of_quoted key (valueText_display value here finite.1)
      obtain ⟨text, shape, separated⟩ := separatedText_displayEntries entries there finite.2 first
      have layout : display (.object ((key, value) :: entries)) =
          '\x7b' :: (((quoted key ++ ':' :: value.display) ++ text) ++ ['\x7d']) := by
        rw [display, shape]
        simp only [List.cons_append, List.append_assoc]
      rw [layout]
      exact .object (enclosedText_of_separated separated) ascending.collects

theorem separatedText_displayItems (items : List Json) (ordered : OrderedItems items)
    (finite : allNumbersItems Binary64.isFinite items = true) {front : List Char} {item : Json}
    (first : ValueText front item) :
    ∃ text, displayItems items = text ++ [']'] ∧
      SeparatedText ValueText (front ++ text) (item :: items) := by
  -- `front` is the text of the item before, so that the comma has something to follow.
  match items with
  | [] =>
      refine ⟨[], rfl, ?_⟩
      rw [List.append_nil]
      exact .one first
  | next :: items =>
      obtain ⟨here, there⟩ := ordered
      simp only [allNumbersItems, Bool.and_eq_true] at finite
      have shown := valueText_display next here finite.1
      obtain ⟨text, shape, separated⟩ := separatedText_displayItems items there finite.2 shown
      have following := SeparatedText.more first blanks_nil separated
      refine ⟨',' :: (next.display ++ text), ?_, following⟩
      rw [displayItems, shape, List.cons_append, List.append_assoc]

theorem separatedText_displayEntries (entries : List (String × Json))
    (ordered : OrderedEntries entries)
    (finite : allNumbersEntries Binary64.isFinite entries = true) {front : List Char}
    {entry : String × Json} (first : EntryText ValueText front entry) :
    ∃ text, displayEntries entries = text ++ ['\x7d'] ∧
      SeparatedText (EntryText ValueText) (front ++ text) (entry :: entries) := by
  match entries with
  | [] =>
      refine ⟨[], rfl, ?_⟩
      rw [List.append_nil]
      exact .one first
  | (key, value) :: entries =>
      obtain ⟨here, there⟩ := ordered
      simp only [allNumbersEntries, Bool.and_eq_true] at finite
      have shown := entryText_of_quoted key (valueText_display value here finite.1)
      obtain ⟨text, shape, separated⟩ := separatedText_displayEntries entries there finite.2 shown
      have following := SeparatedText.more first blanks_nil separated
      refine ⟨',' :: ((quoted key ++ ':' :: value.display) ++ text), ?_, following⟩
      rw [displayEntries, shape]
      simp only [List.cons_append, List.append_assoc]

end

/-- What is written is read back bit for bit, up to the next character that is not blank. The entries
of an object are in ascending order, as a map of entries has them. -/
theorem run_value_display (v : Json) (t : List Char) (ordered : v.Ordered)
    (finite : v.allNumbers Binary64.isFinite = true)
    (apart : ∀ x, v = .number x → ∀ c ∈ t.head?, c.isDigit = false ∧ c ≠ '.') :
    Grammar.value.run (v.display ++ t) = .ok ⟨v, t.dropWhile isBlank⟩ ∧
      Grammar.document.parse v.display = .ok v ∧ Grammar.value.parse v.display = .ok v := by
  have shape := valueText_display v ordered finite
  have document := DocumentText.mk blanks_nil shape
  have alone := Grammar.run_value_of_valueText shape fun _ _ => apart_nil
  rw [List.append_nil] at alone
  refine ⟨Grammar.run_value_of_valueText shape apart, Grammar.parse_of_documentText document, ?_⟩
  rw [Parser.parse_eq, alone]
  rfl

/-- An escaped key, a negative zero and an escaped line feed, with a digit behind the tree. -/
theorem run_value_display_nested :
    let v : Json := .object [("\"", .array [.number ⟨true, 0⟩, .string "\n"])]
    v.Ordered ∧ v.allNumbers Binary64.isFinite = true ∧
      v.display = "\x7b\"\\\"\":[-0,\"\\n\"]\x7d".toList ∧
      Grammar.value.run (v.display ++ ['5', ' ']) = .ok ⟨v, ['5', ' ']⟩ ∧
      Grammar.document.parse v.display = .ok v ∧ Grammar.value.parse v.display = .ok v := by
  intro v
  have ordered : v.Ordered := ⟨List.pairwise_singleton _ _, ⟨trivial, trivial, trivial⟩, trivial⟩
  have apart : ∀ x, v = .number x → ∀ c ∈ ['5', ' '].head?, c.isDigit = false ∧ c ≠ '.' :=
    fun x same => Json.noConfusion same
  exact ⟨ordered, rfl, by decide +kernel, run_value_display v ['5', ' '] ordered rfl apart⟩

end Descent.Json
