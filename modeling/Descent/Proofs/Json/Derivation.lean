import Mathlib.Data.List.TakeWhile
import Descent.Binary64.Nearest
import Descent.Json.Value
import Descent.Text.Blank

/-!
The JSON grammar as derivations: which texts there are of each kind and what they mean. No parser
occurs here. `W` is any text of blanks, the empty one included.

    document = W value
    value    = number | boolean | string | array | object
    number   = "-"? ("0" | [1-9] [0-9]*) ("." [0-9]+)? W
    boolean  = ("true" | "false") W
    string   = '"' unit* '"' W
    array    = "[" W (value ("," W value)*)? "]" W
    object   = "{" W (entry ("," W entry)*)? "}" W, where entry = string ":" W value
-/

namespace Descent.Json

def Blanks (w : List Char) : Prop := ∀ c ∈ w, isBlank c = true

def Digits (ds : List Char) : Prop := ∀ d ∈ ds, d.isDigit = true

inductive WholeText : List Char → Prop
  | zero : WholeText ['0']
  | leading {d : Char} {ds : List Char} (digit : d.isDigit = true) (nonZero : d ≠ '0')
      (digits : Digits ds) : WholeText (d :: ds)

inductive FractionText : List Char → Prop
  | absent : FractionText []
  | present {ds : List Char} (nonempty : ds ≠ []) (digits : Digits ds) : FractionText ('.' :: ds)

inductive NumeralText : List Char → Prop
  | unsigned {whole fraction : List Char} (front : WholeText whole)
      (back : FractionText fraction) : NumeralText (whole ++ fraction)
  | negative {whole fraction : List Char} (front : WholeText whole)
      (back : FractionText fraction) : NumeralText ('-' :: (whole ++ fraction))

inductive NumberText : List Char → Binary64 → Prop
  | mk {numeral w : List Char} {x : Binary64} (shape : NumeralText numeral)
      (meaning : Binary64.read? numeral = some x) (blanks : Blanks w) : NumberText (numeral ++ w) x

inductive BooleanText : List Char → Bool → Prop
  | yes {w : List Char} (blanks : Blanks w) : BooleanText ('t' :: 'r' :: 'u' :: 'e' :: w) true
  | no {w : List Char} (blanks : Blanks w) : BooleanText ('f' :: 'a' :: 'l' :: 's' :: 'e' :: w) false

/-- What a backslash and this character stand for together. -/
def escapeMeaning? : Char → Option Char
  | 'n' => some '\n'
  | 't' => some '\t'
  | '"' => some '"'
  | '\\' => some '\\'
  | _ => none

/-- The units of a string up to the closing quote, which is part of the text. A backslash stands for
itself unless the next character makes an escape of it. -/
inductive ContentText : List Char → List Char → Prop
  | close : ContentText ['"'] []
  | escape {code meaning : Char} {s cs : List Char} (known : escapeMeaning? code = some meaning)
      (rest : ContentText s cs) : ContentText ('\\' :: code :: s) (meaning :: cs)
  | plain {c : Char} {s cs : List Char} (notQuote : c ≠ '"')
      (notEscape : c = '\\' → ∀ code ∈ s.head?, escapeMeaning? code = none)
      (rest : ContentText s cs) : ContentText (c :: s) (c :: cs)

inductive StringText : List Char → String → Prop
  | mk {s cs w : List Char} (content : ContentText s cs) (blanks : Blanks w) :
      StringText ('"' :: (s ++ w)) (String.ofList cs)

/-- Elements with commas between them, and blanks behind each comma. -/
inductive SeparatedText {α : Type} (Element : List Char → α → Prop) : List Char → List α → Prop
  | one {s : List Char} {x : α} (last : Element s x) : SeparatedText Element s [x]
  | more {s w rest : List Char} {x : α} {xs : List α} (first : Element s x) (blanks : Blanks w)
      (following : SeparatedText Element rest xs) :
      SeparatedText Element (s ++ ',' :: (w ++ rest)) (x :: xs)

inductive EnclosedText {α : Type} (opening closing : Char) (Element : List Char → α → Prop) :
    List Char → List α → Prop
  | empty {w w' : List Char} (inside : Blanks w) (behind : Blanks w') :
      EnclosedText opening closing Element (opening :: (w ++ closing :: w')) []
  | filled {w s w' : List Char} {xs : List α} (inside : Blanks w)
      (elements : SeparatedText Element s xs) (behind : Blanks w') :
      EnclosedText opening closing Element (opening :: (w ++ (s ++ closing :: w'))) xs

inductive EntryText (Value : List Char → Json → Prop) : List Char → String × Json → Prop
  | mk {k w s : List Char} {key : String} {v : Json} (name : StringText k key) (blanks : Blanks w)
      (bound : Value s v) : EntryText Value (k ++ ':' :: (w ++ s)) (key, v)

inductive ValueText : List Char → Json → Prop
  | number {s : List Char} {x : Binary64} (text : NumberText s x) : ValueText s (.number x)
  | boolean {s : List Char} {b : Bool} (text : BooleanText s b) : ValueText s (.boolean b)
  | string {s : List Char} {v : String} (text : StringText s v) : ValueText s (.string v)
  | array {s : List Char} {items : List Json} (text : EnclosedText '[' ']' ValueText s items) :
      ValueText s (.array items)
  | object {s : List Char} {bindings : List (String × Json)} {entries : Entries Json}
      (text : EnclosedText '\x7b' '\x7d' (EntryText ValueText) s bindings)
      (last : Entries.Collects bindings entries) : ValueText s (.object entries)

inductive DocumentText : List Char → Json → Prop
  | mk {w s : List Char} {v : Json} (blanks : Blanks w) (value : ValueText s v) :
      DocumentText (w ++ s) v

/-- Whatever number stands in front, this text does not prolong it. -/
def Apart (s : List Char) : Prop := ∀ c ∈ s.head?, c.isDigit = false ∧ c ≠ '.'

theorem blanks_nil : Blanks [] := by
  intro c member
  cases member

theorem apart_nil : Apart [] := by
  intro c first
  cases first

theorem not_blank_of_digit {c : Char} (digit : c.isDigit = true) : isBlank c = false := by
  have low : 48 ≤ c.toNat := (Char.isDigit_iff_toNat.mp digit).1
  have high : c.toNat ≤ 57 := (Char.isDigit_iff_toNat.mp digit).2
  simp only [isBlank, blankRanges, List.any_cons, List.any_nil, Bool.or_false,
    Bool.or_eq_false_iff, Bool.and_eq_false_iff, decide_eq_false_iff_not]
  omega

theorem apart_of_blank {c : Char} (blank : isBlank c = true) : c.isDigit = false ∧ c ≠ '.' := by
  refine ⟨?_, ?_⟩
  · refine Bool.eq_false_iff.mpr fun digit => ?_
    rw [not_blank_of_digit digit] at blank
    cases blank
  · rintro rfl
    exact absurd blank (by decide)

theorem blanks_takeWhile (s : List Char) : Blanks (s.takeWhile isBlank) :=
  fun _ member => List.mem_takeWhile_imp member

theorem dropWhile_solid {c : Char} (solid : isBlank c = false) (s : List Char) :
    (c :: s).dropWhile isBlank = c :: s := List.dropWhile_cons_of_neg (by simp [solid])

theorem Blanks.dropWhile_append {w : List Char} (blanks : Blanks w) (t : List Char) :
    (w ++ t).dropWhile isBlank = t.dropWhile isBlank := List.dropWhile_append_of_pos blanks

theorem Apart.blanks_append {w t : List Char} (apart : Apart t) (blanks : Blanks w) :
    Apart (w ++ t) := by
  cases w with
  | nil => exact apart
  | cons b w =>
      intro c first
      cases first
      exact apart_of_blank (blanks b List.mem_cons_self)

theorem WholeText.first {whole : List Char} (shape : WholeText whole) :
    ∃ d ds, whole = d :: ds ∧ d.isDigit = true := by
  cases shape with
  | zero => exact ⟨'0', [], rfl, rfl⟩
  | @leading d ds digit nonZero digits => exact ⟨d, ds, rfl, digit⟩

theorem ne_of_isDigit {c d : Char} (digit : d.isDigit = true) (other : c.isDigit = false) :
    d ≠ c := by
  rintro rfl
  rw [digit] at other
  cases other

theorem FractionText.stops {fraction t : List Char} (shape : FractionText fraction)
    (apart : Apart t) : ∀ c ∈ (fraction ++ t).head?, c.isDigit = false := by
  intro c first
  cases shape with
  | absent => exact (apart c first).1
  | present nonempty digits =>
      cases first
      rfl

theorem WholeText.digits {whole : List Char} (shape : WholeText whole) : Digits whole := by
  intro c member
  cases shape with
  | zero =>
      rw [List.mem_singleton.mp member]
      rfl
  | leading digit nonZero digits =>
      rcases List.mem_cons.mp member with rfl | member
      · exact digit
      · exact digits c member

theorem exists_decimal {whole fraction : List Char} (front : WholeText whole)
    (back : FractionText fraction) : ∃ d, Decimal.read? (whole ++ fraction) = some d := by
  have stop := back.stops apart_nil
  rw [List.append_nil] at stop
  obtain ⟨taken, left⟩ := Decimal.takeWhile_digits whole fraction front.digits stop
  have nonempty : whole ≠ [] := by
    obtain ⟨d, ds, rfl, _⟩ := front.first
    exact List.cons_ne_nil d ds
  simp only [Decimal.read?, taken, left, if_neg nonempty]
  cases back with
  | absent => exact ⟨_, rfl⟩
  | @present ds filled digits =>
      have accepted : ¬(ds = [] ∨ ds.any (!·.isDigit) = true) := by
        rintro (empty | other)
        · exact filled empty
        · obtain ⟨d, member, strange⟩ := List.any_eq_true.mp other
          rw [digits d member] at strange
          cases strange
      exact ⟨_, if_neg accepted⟩

theorem WholeText.numeralText {whole : List Char} (shape : WholeText whole) : NumeralText whole := by
  have numeral := NumeralText.unsigned shape .absent
  rw [List.append_nil] at numeral
  exact numeral

/-- A numeral alone, without blanks behind it. -/
theorem NumeralText.numberText {numeral : List Char} {x : Binary64} (shape : NumeralText numeral)
    (meaning : Binary64.read? numeral = some x) : NumberText numeral x := by
  have number := NumberText.mk shape meaning blanks_nil
  rw [List.append_nil] at number
  exact number

/-- The conversion of a numeral never fails. -/
theorem NumeralText.exists_meaning {numeral : List Char} (shape : NumeralText numeral) :
    ∃ x, Binary64.read? numeral = some x := by
  cases shape with
  | unsigned front back =>
      obtain ⟨e, read⟩ := exists_decimal front back
      obtain ⟨d, ds, rfl, digit⟩ := front.first
      refine ⟨Binary64.ofDecimal false e, Binary64.read?_of_leading read fun c first => ?_⟩
      cases first
      exact ne_of_isDigit digit rfl
  | negative front back =>
      obtain ⟨e, read⟩ := exists_decimal front back
      exact ⟨Binary64.ofDecimal true e, by rw [Binary64.read?, read]; rfl⟩

end Descent.Json
