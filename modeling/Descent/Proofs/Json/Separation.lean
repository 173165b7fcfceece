import Descent.Proofs.Json.Dispatch
import Descent.Proofs.Json.Equality
import Descent.Proofs.Json.NonFinite
import Descent.Proofs.Json.Tokens

/-!
The first character tells what kind of tree a text shows, words go up to a character that no word has, and
marks tell how far lists go.
-/

namespace Descent

namespace Binary64

theorem read_display_eq (x : Binary64) : read? x.display = if x.isFinite then some x else none := by
  cases finite : x.isFinite with
  | true => exact read_display finite
  | false =>
      rcases display_of_not_finite finite with text | text | text
      all_goals
        rw [text]
        rfl

theorem display_of_infinite {x : Binary64} (infinite : x.isInfinite = true) :
    x.display = if x.negative then "-inf".toList else "inf".toList := by
  have number : x.isNaN = false := by
    have top : x.magnitude = infinity := of_decide_eq_true infinite
    rw [isNaN, top]
    rfl
  rw [display, number, infinite]
  rfl

theorem isInfinite_of_not_finite {x : Binary64} (number : x.isNaN = false)
    (notFinite : x.isFinite = false) : x.isInfinite = true := by
  rw [isFinite_eq, number] at notFinite
  simpa using notFinite

theorem display_inj {x y : Binary64} (number : x.isNaN = false) (number' : y.isNaN = false)
    (same : x.display = y.display) : x = y := by
  have read := (read_display_eq x).symm.trans ((congrArg read? same).trans (read_display_eq y))
  cases finite : x.isFinite with
  | true =>
      cases finite' : y.isFinite with
      | true => simpa [finite, finite'] using read
      | false => simp [finite, finite'] at read
  | false =>
      cases finite' : y.isFinite with
      | true => simp [finite, finite'] at read
      | false =>
          have infinite := isInfinite_of_not_finite number finite
          have infinite' := isInfinite_of_not_finite number' finite'
          rw [display_of_infinite infinite, display_of_infinite infinite'] at same
          have top : x.magnitude = infinity := of_decide_eq_true infinite
          have top' : y.magnitude = infinity := of_decide_eq_true infinite'
          have signs : x.negative = y.negative := by
            cases sign : x.negative <;> cases sign' : y.negative <;> simp [sign, sign'] at same ⊢
          exact congrArg₂ Binary64.mk signs (top.trans top'.symm)

theorem wordChars_display (x : Binary64) : ∀ c ∈ x.display, Json.isWordChar c = true := by
  cases finite : x.isFinite with
  | true => exact (numeralText_display finite).wordChars.2
  | false =>
      rcases display_of_not_finite finite with text | text | text
      all_goals
        rw [text]
        exact List.all_eq_true.mp rfl

end Binary64

namespace Json

open Grammar (Production)

def production : Json → Production
  | .number _ => .number
  | .boolean _ => .boolean
  | .string _ => .string
  | .object _ => .object
  | .array _ => .array

/-- The kind of value that a written text with this first character is. It differs from `announcedBy?`
in that a number may also start with a letter. -/
def writtenAs (c : Char) : Production :=
  if c = 't' ∨ c = 'f' then .boolean
  else if c = '"' then .string
  else if c = '\x7b' then .object
  else if c = '[' then .array
  else .number

theorem writtenAs_display (v : Json) (s : List Char) :
    ∃ c t, v.display ++ s = c :: t ∧ writtenAs c = v.production := by
  cases v with
  | number x =>
      cases finite : x.isFinite with
      | true =>
          obtain ⟨c, u, front, first⟩ := Grammar.numberText_first (numberText_display finite)
          refine ⟨c, u ++ s, by rw [display, front]; rfl, ?_⟩
          rcases first with minus | digit
          · rw [minus]
            rfl
          · have other : ∀ d : Char, d.isDigit = false → c ≠ d := fun d => ne_of_isDigit digit
            simp [writtenAs, production, other 't' rfl, other 'f' rfl, other '"' rfl,
              other '\x7b' rfl, other '[' rfl]
      | false =>
          rcases Binary64.display_of_not_finite finite with text | text | text
          · exact ⟨'N', "aN".toList ++ s, by rw [display, text]; rfl, rfl⟩
          · exact ⟨'i', "nf".toList ++ s, by rw [display, text]; rfl, rfl⟩
          · exact ⟨'-', "inf".toList ++ s, by rw [display, text]; rfl, rfl⟩
  | boolean b =>
      cases b with
      | true => exact ⟨'t', _, rfl, rfl⟩
      | false => exact ⟨'f', _, rfl, rfl⟩
  | string text => exact ⟨'"', _, rfl, rfl⟩
  | array items => exact ⟨'[', _, by rw [display_array]; rfl, rfl⟩
  | object entries => exact ⟨'\x7b', _, by rw [display_object]; rfl, rfl⟩

theorem production_eq_of_display {v w : Json} {s t : List Char}
    (same : v.display ++ s = w.display ++ t) : v.production = w.production := by
  obtain ⟨c, u, front, kind⟩ := writtenAs_display v s
  obtain ⟨d, u', front', kind'⟩ := writtenAs_display w t
  have first : c = d := List.head_eq_of_cons_eq (front.symm.trans (same.trans front'))
  rw [← kind, first, kind']

theorem word_append_inj {u w s t : List Char} (chars : ∀ c ∈ u, isWordChar c = true)
    (chars' : ∀ c ∈ w, isWordChar c = true) (free : Free s) (free' : Free t)
    (same : u ++ s = w ++ t) : u = w ∧ s = t := by
  have stop : ∀ {r : List Char}, Free r → r.takeWhile isWordChar = [] := by
    intro r free
    cases r with
    | nil => rfl
    | cons c r => exact List.takeWhile_cons_of_neg (by simp [free c rfl])
  have words := congrArg (List.takeWhile isWordChar) same
  rw [List.takeWhile_append_of_pos chars, List.takeWhile_append_of_pos chars', stop free,
    stop free', List.append_nil, List.append_nil] at words
  rw [words] at same
  exact ⟨words, List.append_cancel_left same⟩

theorem quoted_append_inj {key key' : String} {s t : List Char}
    (same : quoted key ++ s = quoted key' ++ t) : key = key' ∧ s = t := by
  have read := Grammar.run_string (stringText_quoted key) s
  rw [same, Grammar.run_string (stringText_quoted key') t] at read
  have keys : key = key' := (congrArg Parsed.value (Outcome.ok.inj read)).symm
  rw [keys] at same
  exact ⟨keys, List.append_cancel_left same⟩

section Lists

variable {α : Type} {shown : α → List Char} {closing : Char}

/-- In front of texts that prolong no word, the texts of these two are the same only if they are. -/
def Separates (shown : α → List Char) (x y : α) : Prop :=
  ∀ s t, Free s → Free t → shown x ++ s = shown y ++ t → x = y ∧ s = t

theorem free_following (structural : isMark closing = true) (xs : List α) (s : List Char) :
    Free ((xs.flatMap fun x => ',' :: shown x) ++ closing :: s) := by
  cases xs with
  | nil => exact free_mark structural s
  | cons x xs => exact free_mark rfl _

theorem following_append_inj (structural : isMark closing = true) (notComma : closing ≠ ',')
    {xs ys : List α} (each : ∀ x ∈ xs, ∀ y ∈ ys, Separates shown x y) {s t : List Char}
    (same : (xs.flatMap fun x => ',' :: shown x) ++ closing :: s =
      (ys.flatMap fun y => ',' :: shown y) ++ closing :: t) : xs = ys ∧ s = t := by
  -- A comma goes on with the list and the closing mark is none, so both lists end together.
  induction xs generalizing ys with
  | nil =>
      cases ys with
      | nil => exact ⟨rfl, List.tail_eq_of_cons_eq same⟩
      | cons y ys => exact absurd (List.head_eq_of_cons_eq same) notComma
  | cons x xs ih =>
      cases ys with
      | nil => exact absurd (List.head_eq_of_cons_eq same).symm notComma
      | cons y ys =>
          simp only [List.flatMap_cons, List.cons_append, List.append_assoc, List.cons.injEq,
            true_and] at same
          obtain ⟨here, there⟩ := each x List.mem_cons_self y List.mem_cons_self _ _
            (free_following structural xs s) (free_following structural ys t) same
          have others : ∀ x ∈ xs, ∀ y ∈ ys, Separates shown x y := fun x member y member' =>
            each x (List.mem_cons_of_mem _ member) y (List.mem_cons_of_mem _ member')
          obtain ⟨rest, ends⟩ := ih others there
          exact ⟨by rw [here, rest], ends⟩

/-- A list and the mark that closes it can be told from what follows. -/
theorem listed_append_inj (structural : isMark closing = true) (notComma : closing ≠ ',')
    (opens : ∀ x s t, shown x ++ s ≠ closing :: t) {xs ys : List α}
    (each : ∀ x ∈ xs, ∀ y ∈ ys, Separates shown x y) {s t : List Char}
    (same : [','].intercalate (xs.map shown) ++ closing :: s =
      [','].intercalate (ys.map shown) ++ closing :: t) : xs = ys ∧ s = t := by
  cases xs with
  | nil =>
      cases ys with
      | nil => exact ⟨rfl, List.tail_eq_of_cons_eq same⟩
      | cons y ys =>
          rw [intercalate_map_cons, List.append_assoc] at same
          exact absurd same.symm (opens y _ s)
  | cons x xs =>
      cases ys with
      | nil =>
          rw [intercalate_map_cons, List.append_assoc] at same
          exact absurd same (opens x _ t)
      | cons y ys =>
          rw [intercalate_map_cons, intercalate_map_cons] at same
          exact following_append_inj structural notComma each (congrArg (',' :: ·) same)

end Lists

theorem separates_entry {entry entry' : String × Json}
    (values : Separates display entry.2 entry'.2) : Separates displayEntry entry entry' := by
  intro s t free free' same
  rw [displayEntry, displayEntry, List.append_assoc, List.append_assoc] at same
  obtain ⟨keys, behind⟩ := quoted_append_inj same
  obtain ⟨value, rest⟩ := values s t free free' (List.tail_eq_of_cons_eq behind)
  exact ⟨Prod.ext keys value, rest⟩

/-- Whatever follows them, the texts of two trees in which every number is one are the same only if the
trees are. -/
theorem separates_display {v w : Json} (numeric : v.Numeric) (numeric' : w.Numeric) :
    Separates display v w := by
  -- The first characters leave only trees of one kind, so `kind` closes all mixed cases.
  induction v generalizing w with
  | number x =>
      intro s t free free' same
      have kind := production_eq_of_display same
      cases w with
      | number y =>
          obtain ⟨text, rest⟩ := word_append_inj x.wordChars_display y.wordChars_display free
            free' same
          have number := Binary64.display_inj (numeric_number.mp numeric)
            (numeric_number.mp numeric') text
          exact ⟨congrArg Json.number number, rest⟩
      | boolean | string | array | object => cases kind
  | boolean b =>
      intro s t free free' same
      have kind := production_eq_of_display same
      cases w with
      | boolean c =>
          cases b with
          | true =>
              cases c with
              | true => exact ⟨rfl, List.append_cancel_left same⟩
              | false => cases same
          | false =>
              cases c with
              | true => cases same
              | false => exact ⟨rfl, List.append_cancel_left same⟩
      | number | string | array | object => cases kind
  | string text =>
      intro s t free free' same
      have kind := production_eq_of_display same
      cases w with
      | string text' =>
          obtain ⟨texts, rest⟩ := quoted_append_inj same
          exact ⟨congrArg Json.string texts, rest⟩
      | number | boolean | array | object => cases kind
  | array items ih =>
      intro s t free free' same
      have kind := production_eq_of_display same
      cases w with
      | array items' =>
          have each := numeric_array.mp numeric
          have each' := numeric_array.mp numeric'
          have separate : ∀ x ∈ items, ∀ y ∈ items', Separates display x y :=
            fun x member y member' => ih x member (each x member) (each' y member')
          have opens : ∀ (x : Json) s t, x.display ++ s ≠ ']' :: t := by
            intro x s t closed
            obtain ⟨c, u, front, _, other⟩ := Grammar.display_front x
            rw [front] at closed
            exact other (List.head_eq_of_cons_eq closed)
          rw [display_array, display_array, List.cons_append, List.cons_append, List.append_assoc,
            List.append_assoc] at same
          obtain ⟨lists, rest⟩ := listed_append_inj rfl (by decide) opens separate
            (List.tail_eq_of_cons_eq same)
          exact ⟨congrArg Json.array lists, rest⟩
      | number | boolean | string | object => cases kind
  | object entries ih =>
      intro s t free free' same
      have kind := production_eq_of_display same
      cases w with
      | object entries' =>
          have each := numeric_object.mp numeric
          have each' := numeric_object.mp numeric'
          have separate : ∀ x ∈ entries, ∀ y ∈ entries', Separates displayEntry x y :=
            fun x member y member' => separates_entry (ih x member (each x member) (each' y member'))
          have opens : ∀ (x : String × Json) s t, displayEntry x ++ s ≠ '\x7d' :: t := by
            intro x s t closed
            cases List.head_eq_of_cons_eq closed
          rw [display_object, display_object, List.cons_append, List.cons_append, List.append_assoc,
            List.append_assoc] at same
          obtain ⟨lists, rest⟩ := listed_append_inj rfl (by decide) opens separate
            (List.tail_eq_of_cons_eq same)
          exact ⟨congrArg Json.object lists, rest⟩
      | number | boolean | string | array => cases kind

theorem display_inj {v w : Json} (numeric : v.Numeric) (numeric' : w.Numeric)
    (same : v.display = w.display) : v = w :=
  (separates_display numeric numeric' [] [] free_nil free_nil (congrArg (· ++ []) same)).1

def Readable (v : Json) : Prop :=
  ∃ s rest, Grammar.value.run s = .ok ⟨v, rest⟩ ∨ Grammar.document.run s = .ok ⟨v, rest⟩

theorem Readable.numeric {v : Json} (readable : v.Readable) : v.Numeric := by
  obtain ⟨s, rest, read | read⟩ := readable
  · obtain ⟨text, _, shape⟩ := Grammar.value_reads _ _ read
    exact shape.not_nan
  · rw [Grammar.run_document] at read
    obtain ⟨text, _, shape⟩ := Grammar.value_reads _ _ read
    exact shape.not_nan

/-- Trees of numbers, of which some may be infinite, have the same text only if they are the same bit for
bit. They are equal if and only if their texts are the same with zero written for minus zero. So equality
is an equivalence on all that can be read, for what is not a number cannot. -/
theorem display_separates :
    (∀ v w : Json, v.Numeric → w.Numeric → v.display = w.display → v = w) ∧
    (∀ v w : Json, v.Numeric → w.Numeric →
      (v.equal w = true ↔ v.positiveZeros.display = w.positiveZeros.display)) ∧
    Equivalence fun v w : { v : Json // v.Readable } => v.val.equal w.val = true := by
  refine ⟨fun v w numeric numeric' => display_inj numeric numeric', ?_, ?_⟩
  · intro v w numeric numeric'
    rw [equal_iff, and_iff_right ⟨numeric, numeric'⟩]
    constructor
    · exact congrArg display
    · exact display_inj (numeric_positiveZeros.mpr numeric) (numeric_positiveZeros.mpr numeric')
  · constructor
    · intro v
      exact equal_iff.mpr ⟨⟨v.property.numeric, v.property.numeric⟩, rfl⟩
    · intro v w equal
      obtain ⟨⟨numeric, numeric'⟩, same⟩ := equal_iff.mp equal
      exact equal_iff.mpr ⟨⟨numeric', numeric⟩, same.symm⟩
    · intro u v w equal equal'
      obtain ⟨⟨numeric, _⟩, same⟩ := equal_iff.mp equal
      obtain ⟨⟨_, numeric'⟩, same'⟩ := equal_iff.mp equal'
      exact equal_iff.mpr ⟨⟨numeric, numeric'⟩, same.trans same'⟩

/-- Next to an infinite number, whose text cannot be read, the two zeros are written differently and are
equal all the same. -/
theorem display_separates_zeros :
    let v : Json := .array [.number ⟨true, 0⟩, .number ⟨false, Binary64.infinity⟩]
    let w : Json := .array [.number ⟨false, 0⟩, .number ⟨false, Binary64.infinity⟩]
    v.Numeric ∧ w.Numeric ∧ v.display ≠ w.display ∧ v.equal w = true := by
  intro v w
  have numeric : v.Numeric := rfl
  have numeric' : w.Numeric := rfl
  have same : v.positiveZeros = w.positiveZeros := rfl
  refine ⟨numeric, numeric', ?_, ?_⟩
  · intro text
    have impossible := display_separates.1 v w numeric numeric' text
    simp [v, w] at impossible
  · exact (display_separates.2.1 v w numeric numeric').mpr (congrArg display same)

end Json

end Descent
