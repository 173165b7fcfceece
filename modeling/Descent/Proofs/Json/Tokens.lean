import Descent.Proofs.Json.Derivation

/-!
The tokens of a text, by a scan that knows nothing of the grammar.
-/

namespace Descent.Json

/-- Characters that are tokens of their own. -/
def marks : List Char := ['[', ']', '\x7b', '\x7d', ',', ':']

def isMark (c : Char) : Bool := marks.contains c

/-- Characters that numbers and words are made of. -/
def isWordChar (c : Char) : Bool := !isBlank c && !isMark c && c != '"'

/-- One more character at the front of the first token. -/
def prolong (c : Char) : List (List Char) → List (List Char)
  | [] => [[c]]
  | token :: tokens => (c :: token) :: tokens

/-- Where a scan stands with respect to string literals. A backslash inside one escapes the next
character. -/
inductive Place where
  | outside
  | inside
  | escaped
  deriving DecidableEq, Repr

def Place.next (place : Place) (c : Char) : Place :=
  match place with
  | outside => if c = '"' then inside else outside
  | inside => if c = '"' then outside else if c = '\\' then escaped else inside
  | escaped => inside

/-- Whether a token is complete with this character, in front of these others. -/
def Place.completes (place : Place) (c : Char) (s : List Char) : Bool :=
  match place with
  | outside => c != '"' && !(isWordChar c && s.head?.any isWordChar)
  | inside => c == '"'
  | escaped => false

/-- A literal that is open at the start, if any, and the tokens behind it. -/
def tokensFrom (place : Place) : List Char → List (List Char)
  | [] => if place = .outside then [] else [[]]
  | c :: s =>
    if place = .outside && isBlank c then tokensFrom (place.next c) s
    else if place.completes c s then [c] :: tokensFrom (place.next c) s
    else prolong c (tokensFrom (place.next c) s)

/-- The marks, the string literals with their quotes, and the longest runs of other characters. -/
def tokens (s : List Char) : List (List Char) := tokensFrom .outside s

/-- The text without the blanks outside its string literals. -/
def strippedFrom (place : Place) : List Char → List Char
  | [] => []
  | c :: s =>
    if place = .outside && isBlank c then strippedFrom (place.next c) s
    else c :: strippedFrom (place.next c) s

def stripped (s : List Char) : List Char := strippedFrom .outside s

inductive TokenText : List Char → Prop
  | mark {c : Char} (structural : isMark c = true) : TokenText [c]
  | literal {u cs : List Char} (content : ContentText u cs) : TokenText ('"' :: u)
  | numeral {numeral : List Char} (shape : NumeralText numeral) : TokenText numeral
  | yes : TokenText ['t', 'r', 'u', 'e']
  | no : TokenText ['f', 'a', 'l', 's', 'e']

/-- The tokens in order, each with any blanks behind it. -/
inductive LaidOut : List (List Char) → List Char → Prop
  | nil : LaidOut [] []
  | cons {token w s : List Char} {others : List (List Char)} (blanks : Blanks w)
      (rest : LaidOut others s) : LaidOut (token :: others) (token ++ (w ++ s))

/-- Tokens of which no two are neighbours unless one of them is a mark. -/
inductive Phrase : List (List Char) → Prop
  | nil : Phrase []
  | single {token : List Char} (shape : TokenText token) : Phrase [token]
  | joined {left right : List (List Char)} {c : Char} (front : Phrase left)
      (structural : isMark c = true) (back : Phrase right) : Phrase (left ++ [c] :: right)

/-- Whatever word stands in front, this text does not prolong it. -/
def Free (s : List Char) : Prop := ∀ c ∈ s.head?, isWordChar c = false

theorem test_of_mark {test : Char → Bool} (all : marks.all test = true) {c : Char}
    (structural : isMark c = true) : test c = true :=
  List.all_eq_true.mp all c (List.contains_iff_mem.mp structural)

theorem solid_of_mark {c : Char} (structural : isMark c = true) :
    c ≠ '"' ∧ isBlank c = false ∧ isWordChar c = false := by
  have all : marks.all (fun c => c != '"' && !isBlank c && !isWordChar c) = true := rfl
  simpa [and_assoc] using test_of_mark all structural

theorem solid_of_wordChar {c : Char} (inWord : isWordChar c = true) :
    c ≠ '"' ∧ isBlank c = false := by
  simp only [isWordChar, Bool.and_eq_true, Bool.not_eq_true', bne_iff_ne] at inWord
  exact ⟨inWord.2, inWord.1.1⟩

theorem wordChar_of_digit {d : Char} (digit : d.isDigit = true) : isWordChar d = true := by
  have noMark : isMark d = false := by
    apply Bool.eq_false_iff.mpr
    intro structural
    have all : marks.all (fun c => !c.isDigit) = true := rfl
    simpa [digit] using test_of_mark all structural
  have noQuote : d ≠ '"' := ne_of_isDigit digit rfl
  simp only [isWordChar, not_blank_of_digit digit, noMark, bne_iff_ne.mpr noQuote, Bool.not_false,
    Bool.and_self]

theorem wordChars_of_parts {whole fraction : List Char} (front : WholeText whole)
    (back : FractionText fraction) : ∀ c ∈ whole ++ fraction, isWordChar c = true := by
  intro c member
  rcases List.mem_append.mp member with member | member
  · exact wordChar_of_digit (front.digits c member)
  · cases back with
    | absent => cases member
    | present nonempty digits =>
        rcases List.mem_cons.mp member with rfl | member
        · decide
        · exact wordChar_of_digit (digits c member)

theorem NumeralText.wordChars {numeral : List Char} (shape : NumeralText numeral) :
    numeral ≠ [] ∧ ∀ c ∈ numeral, isWordChar c = true := by
  cases shape with
  | unsigned front back =>
      have chars := wordChars_of_parts front back
      obtain ⟨d, ds, rfl, digit⟩ := front.first
      exact ⟨List.cons_ne_nil d _, chars⟩
  | negative front back =>
      refine ⟨List.cons_ne_nil '-' _, ?_⟩
      intro c member
      rcases List.mem_cons.mp member with rfl | member
      · decide
      · exact wordChars_of_parts front back c member

theorem free_nil : Free [] := by
  intro c first
  cases first

theorem free_mark {c : Char} (structural : isMark c = true) (s : List Char) : Free (c :: s) := by
  intro d first
  cases first
  exact (solid_of_mark structural).2.2

theorem Free.blanks_append {w s : List Char} (free : Free s) (blanks : Blanks w) :
    Free (w ++ s) := by
  cases w with
  | nil => exact free
  | cons b w =>
      intro c first
      cases first
      simp [isWordChar, blanks b List.mem_cons_self]

theorem flatten_prolong (c : Char) (ts : List (List Char)) :
    (prolong c ts).flatten = c :: ts.flatten := by
  cases ts <;> rfl

theorem flatten_tokensFrom (place : Place) (s : List Char) :
    (tokensFrom place s).flatten = strippedFrom place s := by
  induction s generalizing place with
  | nil => cases place <;> rfl
  | cons c s ih =>
      unfold tokensFrom strippedFrom
      split
      · exact ih (place.next c)
      · split
        · exact congrArg (c :: ·) (ih (place.next c))
        · rw [flatten_prolong, ih]

/-- No text loses more than blanks outside its literals to the scan. -/
theorem flatten_tokens (s : List Char) : (tokens s).flatten = stripped s :=
  flatten_tokensFrom .outside s

theorem tokens_mark {c : Char} (structural : isMark c = true) (s : List Char) :
    tokens (c :: s) = [c] :: tokens s := by
  obtain ⟨noQuote, solid, noWord⟩ := solid_of_mark structural
  simp [tokens, tokensFrom, Place.completes, Place.next, noQuote, solid, noWord]

theorem tokens_blanks {w : List Char} (blanks : Blanks w) (s : List Char) :
    tokens (w ++ s) = tokens s := by
  induction w with
  | nil => rfl
  | cons b w ih =>
      have blank : isBlank b = true := blanks b List.mem_cons_self
      have noQuote : b ≠ '"' := by
        rintro rfl
        cases blank
      have rest := ih fun c member => blanks c (List.mem_cons_of_mem b member)
      rw [← rest]
      simp [tokens, tokensFrom, Place.next, noQuote, blank]

theorem tokens_word {word t : List Char} (nonempty : word ≠ [])
    (chars : ∀ c ∈ word, isWordChar c = true) (free : Free t) :
    tokens (word ++ t) = word :: tokens t := by
  induction word with
  | nil => exact absurd rfl nonempty
  | cons c word ih =>
      have inWord : isWordChar c = true := chars c List.mem_cons_self
      have rest : ∀ d ∈ word, isWordChar d = true := fun d member =>
        chars d (List.mem_cons_of_mem c member)
      obtain ⟨noQuote, solid⟩ := solid_of_wordChar inWord
      cases word with
      | nil =>
          have last : t.head?.any isWordChar = false := by
            cases t with
            | nil => rfl
            | cons d t => exact free d rfl
          simp [tokens, tokensFrom, Place.completes, Place.next, noQuote, solid, last]
      | cons d word =>
          have follows : isWordChar d = true := rest d List.mem_cons_self
          have tail := ih (List.cons_ne_nil d word) rest
          calc
            tokens (c :: (d :: word ++ t)) = prolong c (tokens (d :: word ++ t)) := by
              simp [tokens, tokensFrom, Place.completes, Place.next, noQuote, solid, inWord, follows]
            _ = (c :: d :: word) :: tokens t := by
              rw [tail]
              rfl

theorem tokensFrom_inside_cons {c : Char} (notQuote : c ≠ '"') (s : List Char) :
    tokensFrom .inside (c :: s) =
      prolong c (tokensFrom (if c = '\\' then .escaped else .inside) s) := by
  simp [tokensFrom, Place.completes, Place.next, notQuote]

theorem tokensFrom_escaped_cons (c : Char) (s : List Char) :
    tokensFrom .escaped (c :: s) = prolong c (tokensFrom .inside s) := by
  simp [tokensFrom, Place.completes, Place.next]

/-- A character that makes no escape with the backslash in front of it is read alike without one. -/
theorem tokensFrom_escaped_of_alone {c : Char} (alone : escapeMeaning? c = none) (s : List Char) :
    tokensFrom .escaped (c :: s) = tokensFrom .inside (c :: s) := by
  have notQuote : c ≠ '"' := by
    rintro rfl
    cases alone
  have notBackslash : c ≠ '\\' := by
    rintro rfl
    cases alone
  rw [tokensFrom_escaped_cons, tokensFrom_inside_cons notQuote, if_neg notBackslash]

theorem tokensFrom_inside_of_content {u cs : List Char} (content : ContentText u cs)
    (t : List Char) : tokensFrom .inside (u ++ t) = u :: tokens t := by
  induction content with
  | close => simp [tokensFrom, Place.completes, Place.next, tokens]
  | @escape code meaning s cs known rest ih =>
      have backslash : ('\\' : Char) ≠ '"' := by decide
      rw [List.cons_append, List.cons_append, tokensFrom_inside_cons backslash, if_pos rfl,
        tokensFrom_escaped_cons, ih]
      rfl
  | @plain c s cs notQuote notEscape rest ih =>
      rw [List.cons_append, tokensFrom_inside_cons notQuote]
      by_cases backslash : c = '\\'
      · cases s with
        | nil => cases rest
        | cons d s =>
            have alone : escapeMeaning? d = none := notEscape backslash d rfl
            rw [if_pos backslash, List.cons_append, tokensFrom_escaped_of_alone alone]
            rw [List.cons_append] at ih
            rw [ih]
            rfl
      · rw [if_neg backslash, ih]
        rfl

theorem tokens_literal {u cs : List Char} (content : ContentText u cs) (t : List Char) :
    tokens ('"' :: (u ++ t)) = ('"' :: u) :: tokens t := by
  have solid : isBlank '"' = false := rfl
  calc
    tokens ('"' :: (u ++ t)) = prolong '"' (tokensFrom .inside (u ++ t)) := by
      simp [tokens, tokensFrom, Place.completes, Place.next, solid]
    _ = ('"' :: u) :: tokens t := by
      rw [tokensFrom_inside_of_content content]
      rfl

theorem TokenText.tokens_append {token t : List Char} (shape : TokenText token) (free : Free t) :
    tokens (token ++ t) = token :: tokens t := by
  cases shape with
  | mark structural => exact tokens_mark structural t
  | literal content => exact tokens_literal content t
  | numeral shape => exact tokens_word shape.wordChars.1 shape.wordChars.2 free
  | yes => exact tokens_word (List.cons_ne_nil _ _) (List.all_eq_true.mp rfl) free
  | no => exact tokens_word (List.cons_ne_nil _ _) (List.all_eq_true.mp rfl) free

theorem LaidOut.append {left right : List (List Char)} {s t : List Char} (front : LaidOut left s)
    (back : LaidOut right t) : LaidOut (left ++ right) (s ++ t) := by
  induction front with
  | nil => exact back
  | cons blanks rest ih =>
      rw [List.append_assoc, List.append_assoc]
      exact .cons blanks ih

theorem laidOut_single {token w : List Char} (blanks : Blanks w) :
    LaidOut [token] (token ++ w) := by
  have laid : LaidOut [token] (token ++ (w ++ [])) := .cons blanks .nil
  rw [List.append_nil] at laid
  exact laid

theorem LaidOut.split {left right : List (List Char)} {s : List Char}
    (laid : LaidOut (left ++ right) s) :
    ∃ a b, s = a ++ b ∧ LaidOut left a ∧ LaidOut right b := by
  induction left generalizing s with
  | nil => exact ⟨[], s, rfl, .nil, laid⟩
  | cons token left ih =>
      cases laid with
      | @cons _ w s _ blanks rest =>
          obtain ⟨a, b, rfl, front, back⟩ := ih rest
          exact ⟨token ++ (w ++ a), b, by simp, .cons blanks front, back⟩

theorem LaidOut.split_single {token s : List Char} (laid : LaidOut [token] s) :
    ∃ w, s = token ++ w ∧ Blanks w := by
  cases laid with
  | @cons _ w _ _ blanks rest =>
      cases rest
      exact ⟨w, by rw [List.append_nil], blanks⟩

theorem LaidOut.split_mark {left right : List (List Char)} {c : Char} {s : List Char}
    (laid : LaidOut (left ++ [c] :: right) s) :
    ∃ a w b, s = a ++ c :: (w ++ b) ∧ LaidOut left a ∧ Blanks w ∧ LaidOut right b := by
  obtain ⟨a, t, rfl, front, back⟩ := laid.split
  cases back with
  | @cons _ w b _ blanks rest => exact ⟨a, w, b, rfl, front, blanks, rest⟩

theorem laidOut_flatten (ts : List (List Char)) : LaidOut ts ts.flatten := by
  induction ts with
  | nil => exact .nil
  | cons token ts ih => exact .cons blanks_nil ih

theorem Phrase.each {ts : List (List Char)} (phrase : Phrase ts) : ∀ token ∈ ts, TokenText token := by
  induction phrase with
  | nil => exact List.forall_mem_nil _
  | single shape => exact List.forall_mem_singleton.mpr shape
  | joined front structural back front_ih back_ih =>
      exact List.forall_mem_append.mpr
        ⟨front_ih, List.forall_mem_cons.mpr ⟨.mark structural, back_ih⟩⟩

/-- However a phrase is laid out, its tokens do not run together. -/
theorem Phrase.tokens_append {ts : List (List Char)} (phrase : Phrase ts) {s t : List Char}
    (laid : LaidOut ts s) (free : Free t) : tokens (s ++ t) = ts ++ tokens t := by
  induction phrase generalizing s t with
  | nil =>
      cases laid
      rfl
  | single shape =>
      obtain ⟨w, rfl, blanks⟩ := laid.split_single
      rw [List.append_assoc, shape.tokens_append (free.blanks_append blanks), tokens_blanks blanks]
      rfl
  | @joined left right c front structural back front_ih back_ih =>
      obtain ⟨a, w, b, rfl, laidFront, blanks, laidBack⟩ := laid.split_mark
      calc
        tokens ((a ++ c :: (w ++ b)) ++ t) = tokens (a ++ c :: (w ++ (b ++ t))) := by simp
        _ = left ++ tokens (c :: (w ++ (b ++ t))) := front_ih laidFront (free_mark structural _)
        _ = left ++ [c] :: tokens (b ++ t) := by
          rw [tokens_mark structural, tokens_blanks blanks]
        _ = left ++ [c] :: (right ++ tokens t) := by rw [back_ih laidBack free]
        _ = (left ++ [c] :: right) ++ tokens t := by simp

theorem Phrase.tokens_of_laidOut {ts : List (List Char)} (phrase : Phrase ts) {w s : List Char}
    (blanks : Blanks w) (laid : LaidOut ts s) : tokens (w ++ s) = ts := by
  have scanned := phrase.tokens_append laid free_nil
  have none : tokens [] = [] := rfl
  rw [none, List.append_nil, List.append_nil] at scanned
  rw [tokens_blanks blanks, scanned]

end Descent.Json
