import Mathlib.Algebra.Ring.Parity
import Descent.Proofs.Json.Separation

/-!
A written text as a pass sees it that counts quotes and backslashes and reads nothing.
-/

namespace Descent.Json

/-- Whether a literal is open, and the number of backslashes in a row that the pass has just come by in
it. -/
structure Toggle where
  inside : Bool
  backslashes : Nat
  deriving DecidableEq, Repr

/-- A quote opens or closes a literal, unless it stands in one behind an odd number of backslashes. -/
def Toggle.next (toggle : Toggle) (c : Char) : Toggle :=
  if c = '"' then ⟨!toggle.inside || decide (Odd toggle.backslashes), 0⟩
  else ⟨toggle.inside, if toggle.inside && c == '\\' then toggle.backslashes + 1 else 0⟩

def Toggle.after (s : List Char) : Toggle := s.foldl Toggle.next ⟨false, 0⟩

def Place.after (place : Place) (s : List Char) : Place := s.foldl Place.next place

/-- The characters outside string literals, without the quotes. -/
def outsideFrom (place : Place) : List Char → List Char
  | [] => []
  | c :: s =>
    if place = .outside ∧ c ≠ '"' then c :: outsideFrom (place.next c) s
    else outsideFrom (place.next c) s

def outside (s : List Char) : List Char := outsideFrom .outside s

def Toggle.place (toggle : Toggle) : Place :=
  if toggle.inside then (if Even toggle.backslashes then .inside else .escaped) else .outside

theorem Toggle.place_next (toggle : Toggle) (c : Char) :
    (toggle.next c).place = toggle.place.next c := by
  obtain ⟨inside, backslashes⟩ := toggle
  by_cases quote : c = '"'
  · cases inside with
    | false => simp [Toggle.next, Toggle.place, Place.next, quote]
    | true =>
        by_cases even : Even backslashes
        · simp [Toggle.next, Toggle.place, Place.next, quote, even]
        · simp [Toggle.next, Toggle.place, Place.next, quote, even, Nat.not_even_iff_odd.mp even]
  · cases inside with
    | false => simp [Toggle.next, Toggle.place, Place.next, quote]
    | true =>
        by_cases backslash : c = '\\'
        · by_cases even : Even backslashes
          · simp [Toggle.next, Toggle.place, Place.next, backslash, even, Nat.even_add_one]
          · simp [Toggle.next, Toggle.place, Place.next, backslash, even, Nat.even_add_one]
        · by_cases even : Even backslashes
          · simp [Toggle.next, Toggle.place, Place.next, quote, backslash, even]
          · simp [Toggle.next, Toggle.place, Place.next, quote, backslash, even]

theorem Toggle.place_after (s : List Char) :
    (Toggle.after s).place = Place.outside.after s :=
  (List.foldl_hom Toggle.place fun toggle c => (Toggle.place_next toggle c).symm).symm

/-- Three places are enough to know what the count of quotes and backslashes says. -/
theorem after_eq_outside_iff (s : List Char) :
    Place.outside.after s = .outside ↔ (Toggle.after s).inside = false := by
  rw [← Toggle.place_after, Toggle.place]
  cases (Toggle.after s).inside with
  | false => simp
  | true => by_cases even : Even (Toggle.after s).backslashes <;> simp [even]

theorem Place.after_append (place : Place) (u t : List Char) :
    place.after (u ++ t) = (place.after u).after t := List.foldl_append

theorem outsideFrom_append (place : Place) (u t : List Char) :
    outsideFrom place (u ++ t) = outsideFrom place u ++ outsideFrom (place.after u) t := by
  induction u generalizing place with
  | nil => rfl
  | cons c u ih =>
      rw [List.cons_append, outsideFrom, outsideFrom, Place.after, List.foldl_cons]
      split
      · rw [ih, List.cons_append]
        rfl
      · exact ih (place.next c)

/-- A text that leaves no literal open is no hindrance to the text behind it. -/
theorem outside_append {u : List Char} (closed : Place.outside.after u = .outside)
    (t : List Char) : outside (u ++ t) = outside u ++ outside t := by
  rw [outside, outsideFrom_append, closed]
  rfl

theorem outside_cons {c : Char} (notQuote : c ≠ '"') (s : List Char) :
    outside (c :: s) = c :: outside s := by
  rw [outside, outsideFrom, if_pos ⟨rfl, notQuote⟩, Place.next, if_neg notQuote]
  rfl

theorem after_cons {c : Char} (notQuote : c ≠ '"') (s : List Char) :
    Place.outside.after (c :: s) = Place.outside.after s := by
  rw [Place.after, List.foldl_cons, Place.next, if_neg notQuote]
  rfl

theorem outside_enclosed {opening closing : Char} (notQuote : opening ≠ '"') (notQuote' : closing ≠ '"')
    {u : List Char} (closed : Place.outside.after u = .outside) :
    outside (opening :: (u ++ [closing])) = opening :: (outside u ++ [closing]) := by
  rw [outside_cons notQuote, outside_append closed, outside_cons notQuote']
  rfl

def partner? : Char → Option Char
  | '[' => some ']'
  | '\x7b' => some '\x7d'
  | _ => none

/-- Whether each bracket closes the last one that is open. The closing brackets that are due come first
in the list. -/
def balancedFrom (due : List Char) : List Char → Bool
  | [] => due.isEmpty
  | c :: s =>
    match partner? c with
    | some closing => balancedFrom (closing :: due) s
    | none =>
      if c = ']' ∨ c = '\x7d' then due.head? == some c && balancedFrom due.tail s
      else balancedFrom due s

def balanced (s : List Char) : Bool := balancedFrom [] s

theorem balancedFrom_opening {opening closing : Char} (pair : partner? opening = some closing)
    (due s : List Char) :
    balancedFrom due (opening :: s) = balancedFrom (closing :: due) s := by
  rw [balancedFrom, pair]

theorem partner_cases {opening closing : Char} (pair : partner? opening = some closing) :
    opening = '[' ∧ closing = ']' ∨ opening = '\x7b' ∧ closing = '\x7d' := by
  unfold partner? at pair
  split at pair
  · exact Or.inl ⟨rfl, (Option.some.inj pair).symm⟩
  · exact Or.inr ⟨rfl, (Option.some.inj pair).symm⟩
  · cases pair

theorem balancedFrom_closing {opening closing : Char} (pair : partner? opening = some closing)
    (due s : List Char) :
    balancedFrom (closing :: due) (closing :: s) = balancedFrom due s := by
  rcases partner_cases pair with ⟨_, rfl⟩ | ⟨_, rfl⟩
  · simp [balancedFrom, partner?]
  · simp [balancedFrom, partner?]

/-- Characters that are neither a quote nor a bracket. -/
def Loose (c : Char) : Prop := c ∉ ['"', '[', ']', '\x7b', '\x7d']

theorem balancedFrom_loose {c : Char} (loose : Loose c) (due s : List Char) :
    balancedFrom due (c :: s) = balancedFrom due s := by
  simp only [Loose, List.mem_cons, List.not_mem_nil, or_false, not_or] at loose
  obtain ⟨_, bracket, bracket', brace, brace'⟩ := loose
  have alone : partner? c = none := by
    unfold partner?
    split
    · exact absurd rfl bracket
    · exact absurd rfl brace
    · rfl
  rw [balancedFrom, alone]
  exact if_neg (not_or.mpr ⟨bracket', brace'⟩)

example : balanced "[\x7b\x7d,[]]".toList = true ∧ balanced "[\x7b]\x7d".toList = false := by decide

/-- On one line, with every literal closed, and outside the literals with no blank and with brackets that
a pass may leave out. -/
structure Minified (u : List Char) : Prop where
  closed : Place.outside.after u = .outside
  solid : ∀ c ∈ outside u, isBlank c = false
  neutral : ∀ due t, balancedFrom due (outside u ++ t) = balancedFrom due t
  oneLine : ∀ c ∈ u, c ≠ '\n' ∧ c ≠ '\t'

theorem minified_nil : Minified [] :=
  ⟨rfl, List.forall_mem_nil _, fun _ _ => rfl, List.forall_mem_nil _⟩

theorem Minified.append {u t : List Char} (front : Minified u) (back : Minified t) :
    Minified (u ++ t) := by
  have outer := outside_append front.closed t
  constructor
  · rw [Place.after_append, front.closed, back.closed]
  · rw [outer]
    exact List.forall_mem_append.mpr ⟨front.solid, back.solid⟩
  · intro due rest
    rw [outer, List.append_assoc, front.neutral, back.neutral]
  · exact List.forall_mem_append.mpr ⟨front.oneLine, back.oneLine⟩

theorem oneLine_of_solid {c : Char} (solid : isBlank c = false) : c ≠ '\n' ∧ c ≠ '\t' := by
  constructor
  · rintro rfl
    cases solid
  · rintro rfl
    cases solid

theorem minified_char {c : Char} (solid : isBlank c = false) (loose : Loose c) : Minified [c] := by
  have notQuote : c ≠ '"' := fun quote => loose (quote ▸ List.mem_cons_self)
  have alone : outside [c] = [c] := outside_cons notQuote []
  constructor
  · exact after_cons notQuote []
  · rw [alone]
    exact List.forall_mem_singleton.mpr solid
  · intro due t
    rw [alone]
    exact balancedFrom_loose loose due t
  · exact List.forall_mem_singleton.mpr (oneLine_of_solid solid)

theorem minified_word {u : List Char} (chars : ∀ c ∈ u, isWordChar c = true) : Minified u := by
  induction u with
  | nil => exact minified_nil
  | cons c u ih =>
      obtain ⟨inWord, others⟩ := List.forall_mem_cons.mp chars
      have loose : Loose c := by
        intro member
        simp only [List.mem_cons, List.not_mem_nil, or_false] at member
        rcases member with rfl | rfl | rfl | rfl | rfl
        all_goals cases inWord
      exact (minified_char (solid_of_wordChar inWord).2 loose).append (ih others)

theorem Minified.intercalate {texts : List (List Char)} (each : ∀ text ∈ texts, Minified text) :
    Minified ([','].intercalate texts) := by
  induction texts with
  | nil => exact minified_nil
  | cons text texts ih =>
      obtain ⟨here, there⟩ := List.forall_mem_cons.mp each
      cases texts with
      | nil =>
          rw [List.intercalate_singleton]
          exact here
      | cons next texts =>
          have comma : Minified [','] := minified_char rfl (by unfold Loose; decide)
          rw [List.intercalate_cons_cons]
          exact (here.append comma).append (ih there)

theorem Minified.enclosed {opening closing : Char} (pair : partner? opening = some closing)
    {u : List Char} (inside : Minified u) : Minified (opening :: (u ++ [closing])) := by
  have solid : (opening ≠ '"' ∧ isBlank opening = false) ∧ closing ≠ '"' ∧ isBlank closing = false := by
    rcases partner_cases pair with ⟨rfl, rfl⟩ | ⟨rfl, rfl⟩
    · exact ⟨⟨by decide, rfl⟩, by decide, rfl⟩
    · exact ⟨⟨by decide, rfl⟩, by decide, rfl⟩
  obtain ⟨⟨notQuote, solidOpening⟩, notQuote', solidClosing⟩ := solid
  have outer := outside_enclosed notQuote notQuote' inside.closed
  constructor
  · rw [after_cons notQuote, Place.after_append, inside.closed]
    exact after_cons notQuote' []
  · rw [outer]
    exact List.forall_mem_cons.mpr ⟨solidOpening, List.forall_mem_append.mpr
      ⟨inside.solid, List.forall_mem_singleton.mpr solidClosing⟩⟩
  -- The opening bracket asks for its partner, which is first in line again once the inside is over.
  · intro due t
    rw [outer]
    calc
      balancedFrom due (opening :: (outside u ++ [closing]) ++ t) =
          balancedFrom (closing :: due) (outside u ++ closing :: t) := by
        rw [List.cons_append, List.append_assoc, balancedFrom_opening pair]
        rfl
      _ = balancedFrom (closing :: due) (closing :: t) := inside.neutral _ _
      _ = balancedFrom due t := balancedFrom_closing pair due t
  · exact List.forall_mem_cons.mpr ⟨oneLine_of_solid solidOpening, List.forall_mem_append.mpr
      ⟨inside.oneLine, List.forall_mem_singleton.mpr (oneLine_of_solid solidClosing)⟩⟩

/-- On one line, and from inside of a literal to inside of it. -/
structure Hidden (u : List Char) : Prop where
  stays : Place.inside.after u = .inside
  nothing : outsideFrom .inside u = []
  oneLine : ∀ c ∈ u, c ≠ '\n' ∧ c ≠ '\t'

theorem Hidden.append {u t : List Char} (front : Hidden u) (back : Hidden t) : Hidden (u ++ t) := by
  constructor
  · rw [Place.after_append, front.stays, back.stays]
  · rw [outsideFrom_append, front.nothing, front.stays, back.nothing]
    rfl
  · exact List.forall_mem_append.mpr ⟨front.oneLine, back.oneLine⟩

/-- A backslash takes the next character along, whatever it is. -/
theorem hidden_pair {c : Char} (solid : isBlank c = false) : Hidden ['\\', c] := by
  constructor
  · rfl
  · rfl
  · exact List.forall_mem_cons.mpr ⟨oneLine_of_solid rfl,
      List.forall_mem_singleton.mpr (oneLine_of_solid solid)⟩

theorem hidden_escaped (c : Char) : Hidden (escaped c) := by
  unfold escaped
  split
  · exact hidden_pair rfl
  · exact hidden_pair rfl
  · exact hidden_pair rfl
  · exact hidden_pair rfl
  · rename_i newline tab quote backslash
    constructor
    · exact (if_neg quote).trans (if_neg backslash)
    · simp [outsideFrom]
    · exact List.forall_mem_singleton.mpr ⟨newline, tab⟩

theorem hidden_content (cs : List Char) : Hidden (cs.flatMap escaped) := by
  induction cs with
  | nil => exact ⟨rfl, rfl, List.forall_mem_nil _⟩
  | cons c cs ih => exact (hidden_escaped c).append ih

theorem outside_quoted (text : String) : outside (quoted text) = [] := by
  have content := hidden_content text.toList
  have opened : outside (quoted text) =
      outsideFrom .inside (text.toList.flatMap escaped ++ ['"']) := rfl
  rw [opened, outsideFrom_append, content.nothing, content.stays]
  rfl

/-- Nothing in a string is seen from outside. -/
theorem minified_quoted (text : String) : Minified (quoted text) := by
  have content := hidden_content text.toList
  have nothing := outside_quoted text
  constructor
  · have opened : Place.outside.after (quoted text) =
        Place.inside.after (text.toList.flatMap escaped ++ ['"']) := rfl
    rw [opened, Place.after_append, content.stays]
    rfl
  · rw [nothing]
    exact List.forall_mem_nil _
  · intro due t
    rw [nothing]
    rfl
  · have quote : '"' ≠ '\n' ∧ '"' ≠ '\t' := oneLine_of_solid rfl
    exact List.forall_mem_cons.mpr ⟨quote,
      List.forall_mem_append.mpr ⟨content.oneLine, List.forall_mem_singleton.mpr quote⟩⟩

theorem minified_boolean (b : Bool) : Minified (display (.boolean b)) := by
  cases b with
  | true => exact minified_word (List.all_eq_true.mp rfl)
  | false => exact minified_word (List.all_eq_true.mp rfl)

theorem minified_entry {entry : String × Json} (value : Minified entry.2.display) :
    Minified (displayEntry entry) := by
  have colon : Minified [':'] := minified_char rfl (by unfold Loose; decide)
  exact (minified_quoted entry.1).append (colon.append value)

theorem minified_display (v : Json) : Minified v.display := by
  induction v with
  | number x => exact minified_word x.wordChars_display
  | boolean b => exact minified_boolean b
  | string text => exact minified_quoted text
  | array items ih =>
      rw [display_array]
      exact Minified.enclosed rfl (Minified.intercalate (List.forall_mem_map.mpr ih))
  | object entries ih =>
      have each : ∀ entry ∈ entries, Minified (displayEntry entry) := fun entry member =>
        minified_entry (ih entry member)
      rw [display_object]
      exact Minified.enclosed rfl (Minified.intercalate (List.forall_mem_map.mpr each))

theorem outside_word {u : List Char} (chars : ∀ c ∈ u, isWordChar c = true) : outside u = u := by
  induction u with
  | nil => rfl
  | cons c u ih =>
      obtain ⟨inWord, others⟩ := List.forall_mem_cons.mp chars
      have notQuote : c ≠ '"' := by
        rintro rfl
        cases inWord
      rw [outside_cons notQuote, ih others]

theorem outside_boolean (b : Bool) : outside (display (.boolean b)) = display (.boolean b) := by
  cases b with
  | true => exact outside_word (List.all_eq_true.mp rfl)
  | false => exact outside_word (List.all_eq_true.mp rfl)

theorem outside_intercalate {texts : List (List Char)} (each : ∀ text ∈ texts, Minified text) :
    outside ([','].intercalate texts) = [','].intercalate (texts.map outside) := by
  induction texts with
  | nil => rfl
  | cons text texts ih =>
      obtain ⟨here, there⟩ := List.forall_mem_cons.mp each
      cases texts with
      | nil => simp
      | cons next texts =>
          rw [List.intercalate_cons_cons, List.append_assoc, outside_append here.closed,
            List.singleton_append, outside_cons (by decide), ih there]
          simp

theorem outside_array (items : List Json) :
    outside (display (.array items)) =
      '[' :: ([','].intercalate (items.map fun item => outside item.display) ++ [']']) := by
  have each : ∀ text ∈ items.map display, Minified text :=
    List.forall_mem_map.mpr fun item _ => minified_display item
  rw [display_array, outside_enclosed (by decide) (by decide) (Minified.intercalate each).closed,
    outside_intercalate each, List.map_map]
  rfl

theorem outside_entry (entry : String × Json) :
    outside (displayEntry entry) = ':' :: outside entry.2.display := by
  rw [displayEntry, outside_append (minified_quoted entry.1).closed, outside_quoted,
    outside_cons (by decide)]
  rfl

theorem outside_object (entries : List (String × Json)) :
    outside (display (.object entries)) =
      '\x7b' :: ([','].intercalate (entries.map fun entry => ':' :: outside entry.2.display) ++
        ['\x7d']) := by
  have each : ∀ text ∈ entries.map displayEntry, Minified text :=
    List.forall_mem_map.mpr fun entry _ => minified_entry (minified_display entry.2)
  rw [display_object, outside_enclosed (by decide) (by decide) (Minified.intercalate each).closed,
    outside_intercalate each, List.map_map]
  simp only [Function.comp_def, outside_entry]

theorem outside_mapLeaves (g : String → String) (v : Json) :
    outside (v.mapLeaves id g).display = outside v.display := by
  induction v with
  | number x => rfl
  | boolean b => rfl
  | string text => exact (outside_quoted (g text)).trans (outside_quoted text).symm
  | array items ih =>
      have same : items.map ((fun item => outside item.display) ∘ mapLeaves id g) =
          items.map fun item => outside item.display := List.map_congr_left ih
      rw [mapLeaves, mapLeavesItems_eq, outside_array, outside_array, List.map_map, same]
  | object entries ih =>
      have same : entries.map ((fun entry => ':' :: outside entry.2.display) ∘
          fun entry => (g entry.1, entry.2.mapLeaves id g)) =
          entries.map fun entry => ':' :: outside entry.2.display :=
        List.map_congr_left fun entry member => congrArg (':' :: ·) (ih entry member)
      rw [mapLeaves, mapLeavesEntries_eq, outside_object, outside_object, List.map_map, same]

/-- A pass that lets each quote open or close a literal, unless it stands in one behind an odd number of
backslashes, tells what is outside. The text of a tree has no line feed and no tab, no blank outside its
literals, and no literal that stays open, and its brackets outside the literals come in pairs, one within
the other. What is outside are the numbers and truth values, the brackets around items and entries, a comma
between two of them and a colon in each entry. Other strings and keys leave all of that as it is. -/
theorem display_minified (v : Json) :
    (∀ s, Place.outside.after s = .outside ↔ (Toggle.after s).inside = false) ∧
    '\n' ∉ v.display ∧ '\t' ∉ v.display ∧
    (∀ c ∈ outside v.display, isBlank c = false) ∧
    Place.outside.after v.display = .outside ∧
    balanced (outside v.display) = true ∧
    (∀ g, outside (v.mapLeaves id g).display = outside v.display) ∧
    (∀ x, outside (display (.number x)) = x.display) ∧
    (∀ b, outside (display (.boolean b)) = display (.boolean b)) ∧
    (∀ text, outside (display (.string text)) = []) ∧
    (∀ items, outside (display (.array items)) =
      '[' :: ([','].intercalate (items.map fun item => outside item.display) ++ [']'])) ∧
    ∀ entries, outside (display (.object entries)) =
      '\x7b' :: ([','].intercalate (entries.map fun entry => ':' :: outside entry.2.display) ++
        ['\x7d']) := by
  have minified := minified_display v
  have paired := minified.neutral [] []
  rw [List.append_nil] at paired
  exact ⟨after_eq_outside_iff, fun newline => (minified.oneLine _ newline).1 rfl,
    fun tab => (minified.oneLine _ tab).2 rfl, minified.solid, minified.closed, paired,
    fun g => outside_mapLeaves g v, fun x => outside_word x.wordChars_display, outside_boolean,
    outside_quoted, outside_array, outside_object⟩

example : outside "[\"\\\"]\",\x7b\" \\\\\":true\x7d]".toList = "[,\x7b:true\x7d]".toList := by decide

end Descent.Json
