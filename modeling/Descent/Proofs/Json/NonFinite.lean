import Descent.Proofs.Json.Failure
import Descent.Proofs.Json.Meaning
import Descent.Proofs.Json.RoundTrip

/-!
One number that is not finite spoils the text of the whole tree: the list it stands in is read up to the
comma in front of it, where its closing mark is missed, and so on outwards.
-/

namespace Descent

theorem Binary64.display_of_not_finite {x : Binary64} (notFinite : x.isFinite = false) :
    x.display = "NaN".toList ∨ x.display = "inf".toList ∨ x.display = "-inf".toList := by
  obtain ⟨negative, magnitude⟩ := x
  rw [isFinite_eq] at notFinite
  cases nan : Binary64.isNaN ⟨negative, magnitude⟩ with
  | true => exact Or.inl (by rw [display, if_pos nan])
  | false =>
      rw [nan, Bool.not_false, Bool.and_true, Bool.not_eq_false'] at notFinite
      cases negative <;> simp [display, nan, notFinite]

namespace Json.Grammar

open Descent.Parser

section Lists

variable {α : Type} {p : Parser α} {closing : Char} {shown : α → List Char}

/-- The text of an element starts with neither a blank nor the closing mark. In front of a comma it is
read back, or else it is refused wherever it stands. -/
structure Shown (p : Parser α) (closing : Char) (shown : α → List Char) (x : α) : Prop where
  front : ∃ c u, shown x = c :: u ∧ isBlank c = false ∧ c ≠ closing
  settled : (∀ t, p.run (shown x ++ ',' :: t) = .ok ⟨x, ',' :: t⟩) ∨ ∀ t, Refuses p (shown x ++ t)

theorem Shown.dropWhile {x : α} (element : Shown p closing shown x) (t : List Char) :
    (shown x ++ t).dropWhile isBlank = shown x ++ t := by
  obtain ⟨c, u, front, solid, _⟩ := element.front
  rw [front]
  exact dropWhile_solid solid (u ++ t)

/-- A list is read from here as far as a comma at most. -/
def Stops (p : Parser α) (s : List Char) : Prop :=
  Refuses p s ∨ ∃ r ys u, p.run s = .ok r ∧ Repeats ((symbol ",").keepRight p) r.rest ys (',' :: u)

theorem stops_of_bad {x : α} {xs : List α} (elements : ∀ y ∈ x :: xs, Shown p closing shown y)
    (bad : ∃ y ∈ x :: xs, ∀ t, Refuses p (shown y ++ t)) (t : List Char) :
    Stops p (shown x ++ ((xs.flatMap fun y => ',' :: shown y) ++ t)) := by
  induction xs generalizing x with
  | nil =>
      obtain ⟨y, member, refused⟩ := bad
      rw [List.mem_singleton.mp member] at refused
      exact Or.inl (refused _)
  | cons y xs ih =>
      obtain ⟨element, others⟩ := List.forall_mem_cons.mp elements
      obtain ⟨z, member, spoilt⟩ := bad
      rcases List.mem_cons.mp member with rfl | member
      · exact Or.inl (spoilt _)
      -- The bad element is further on, so a round of the loop leads to it unless `x` is bad as well.
      rcases element.settled with read | refused
      · have next := others y List.mem_cons_self
        have round := run_comma p (shown y ++ ((xs.flatMap fun y => ',' :: shown y) ++ t))
        rw [next.dropWhile] at round
        rw [List.flatMap_cons, List.append_assoc, List.cons_append]
        rcases ih others ⟨z, member, spoilt⟩ with ⟨error, failed⟩ | ⟨r, ys, u, ok, loop⟩
        · exact Or.inr ⟨_, [], _, read _, .done (round.trans failed)⟩
        · exact Or.inr ⟨_, r.value :: ys, u, read _, .more (round.trans ok) loop⟩
      · exact Or.inl (refused _)

theorem between_refuses_of_bad {left right : String} {opening : Char} {x : α} {xs : List α}
    (opens : left.toList = [opening]) (closes : right.toList = [closing]) (notComma : ',' ≠ closing)
    (takes : Takes 0 p) (elements : ∀ y ∈ x :: xs, Shown p closing shown y)
    (bad : ∃ y ∈ x :: xs, ∀ t, Refuses p (shown y ++ t)) (t : List Char) :
    Refuses (between (symbol left) (symbol right) (sepBy p (symbol ",")))
      (opening :: (shown x ++ ((xs.flatMap fun y => ',' :: shown y) ++ t))) := by
  have element := elements x List.mem_cons_self
  have missed : ∃ r error, (sepBy p (symbol ",")).run
      (shown x ++ ((xs.flatMap fun y => ',' :: shown y) ++ t)) = .ok r ∧
        Misses closing r.rest error := by
    -- A refused first element leaves an empty list, which is no failure: what is missed is the mark.
    rcases stops_of_bad elements bad t with refused | ⟨r, ys, u, read, loop⟩
    · obtain ⟨c, u, front, _, other⟩ := element.front
      refine ⟨_, ⟨closing.toString, c.toString⟩, run_sepBy_of_refuses refused, ?_⟩
      rw [front]
      exact .other other
    · exact ⟨_, _, run_sepBy_of_repeats takes read loop, .other notComma⟩
  obtain ⟨r, error, inside, misses⟩ := missed
  rw [← element.dropWhile] at inside
  exact ⟨error, (run_enclosed_eq_fail_iff opens closes (sepBy_ne_fail p _)).mpr
    (Or.inr ⟨_, r, rfl, inside, misses⟩)⟩

end Lists

theorem value_refuses_iff {s : List Char} :
    Refuses value s ↔ Refuses (valueOf fun _ => value) s := by
  simp only [Refuses, run_value_eq]

theorem value_refuses_of_not_finite {x : Binary64} (notFinite : x.isFinite = false) (t : List Char) :
    Refuses value (x.display ++ t) := by
  rw [value_refuses_iff]
  rcases Binary64.display_of_not_finite notFinite with text | text | text
  all_goals
    rw [text]
    exact ⟨_, rfl⟩

theorem display_front (v : Json) : ∃ c u, v.display = c :: u ∧ isBlank c = false ∧ c ≠ ']' := by
  cases v with
  | number x =>
      cases finite : x.isFinite with
      | true =>
          obtain ⟨c, u, front, first⟩ := numberText_first (numberText_display finite)
          refine ⟨c, u, front, ?_⟩
          rcases first with rfl | digit
          · exact ⟨rfl, by decide⟩
          · exact ⟨not_blank_of_digit digit, ne_of_isDigit digit rfl⟩
      | false =>
          rcases Binary64.display_of_not_finite finite with text | text | text
          · exact ⟨'N', _, text, rfl, by decide⟩
          · exact ⟨'i', _, text, rfl, by decide⟩
          · exact ⟨'-', _, text, rfl, by decide⟩
  | boolean b =>
      cases b with
      | true => exact ⟨'t', _, rfl, rfl, by decide⟩
      | false => exact ⟨'f', _, rfl, rfl, by decide⟩
  | string text => exact ⟨'"', _, rfl, rfl, by decide⟩
  | array items =>
      cases items with
      | nil => exact ⟨'[', _, rfl, rfl, by decide⟩
      | cons item items => exact ⟨'[', _, rfl, rfl, by decide⟩
  | object entries =>
      cases entries with
      | nil => exact ⟨'\x7b', _, rfl, rfl, by decide⟩
      | cons entry entries => exact ⟨'\x7b', _, rfl, rfl, by decide⟩

theorem dropWhile_display (v : Json) (t : List Char) :
    (v.display ++ t).dropWhile isBlank = v.display ++ t := by
  obtain ⟨c, u, front, solid, _⟩ := display_front v
  rw [front]
  exact dropWhile_solid solid (u ++ t)

theorem shown_item {item : Json} (ordered : item.Ordered)
    (refused : item.allNumbers Binary64.isFinite = false → ∀ t, Refuses value (item.display ++ t)) :
    Shown value ']' display item := by
  refine ⟨display_front item, ?_⟩
  cases finite : item.allNumbers Binary64.isFinite with
  | false => exact Or.inr (refused finite)
  | true =>
      refine Or.inl ?_
      intro t
      have shape := valueText_display item ordered finite
      have read := run_value_of_valueText (t := ',' :: t) shape fun _ _ => apart_comma t
      rwa [dropWhile_solid rfl] at read

theorem run_entryOf_displayEntry (entry : String × Json) (t : List Char) :
    (entryOf fun _ => value).run (displayEntry entry ++ t) =
      (value.run (entry.2.display ++ t)).map fun r => ⟨(entry.1, r.value), r.rest⟩ := by
  have key := run_string (stringText_quoted entry.1) (':' :: (entry.2.display ++ t))
  have colon : (symbol ":").run (':' :: (entry.2.display ++ t)) =
      .ok ⟨":", (entry.2.display ++ t).dropWhile isBlank⟩ := run_symbol ":" _
  rw [dropWhile_solid rfl] at key
  rw [dropWhile_display] at colon
  rw [displayEntry, List.append_assoc, List.cons_append, entryOf, run_bind, run_keepLeft, key]
  simp only [Outcome.bind, colon, Outcome.map, run_map]
  rfl

theorem entryOf_refuses {entry : String × Json} {t : List Char}
    (refuses : Refuses value (entry.2.display ++ t)) :
    Refuses (entryOf fun _ => value) (displayEntry entry ++ t) := by
  obtain ⟨error, failed⟩ := refuses
  refine ⟨error, ?_⟩
  rw [run_entryOf_displayEntry, failed]
  rfl

theorem shown_entry {entry : String × Json} (ordered : entry.2.Ordered)
    (refused : entry.2.allNumbers Binary64.isFinite = false →
      ∀ t, Refuses value (entry.2.display ++ t)) :
    Shown (entryOf fun _ => value) '\x7d' displayEntry entry := by
  refine ⟨⟨'"', _, rfl, rfl, by decide⟩, ?_⟩
  rcases (shown_item ordered refused).settled with read | refused
  · refine Or.inl ?_
    intro t
    rw [run_entryOf_displayEntry, read t]
    rfl
  · exact Or.inr fun t => entryOf_refuses (refused t)

theorem value_refuses_bracket {t : List Char}
    (refuses : Refuses (brackets (sepBy value (symbol ","))) ('[' :: t)) :
    Refuses value ('[' :: t) := by
  rw [value_refuses_iff]
  refine ⟨_, run_choice_eq_fail_iff.mpr ⟨rfl, ?_⟩⟩
  simp only [List.forall_mem_cons]
  have array : Refuses (arrayOf fun _ => value) ('[' :: t) := refuses
  exact ⟨⟨_, rfl⟩, ⟨_, rfl⟩, ⟨_, rfl⟩, ⟨_, rfl⟩, array.map _, List.forall_mem_nil _⟩

theorem value_refuses_brace {t : List Char}
    (refuses : Refuses (braces (sepBy (entryOf fun _ => value) (symbol ","))) ('\x7b' :: t)) :
    Refuses value ('\x7b' :: t) := by
  rw [value_refuses_iff]
  refine ⟨_, run_choice_eq_fail_iff.mpr ⟨rfl, ?_⟩⟩
  simp only [List.forall_mem_cons]
  have object : Refuses (objectOf fun _ => value) ('\x7b' :: t) := refuses.map _
  exact ⟨⟨_, rfl⟩, ⟨_, rfl⟩, ⟨_, rfl⟩, object.map _, ⟨_, rfl⟩, List.forall_mem_nil _⟩

/-- A number that is not finite, at any depth, leaves no value to be read. -/
theorem value_refuses_display (v : Json) (ordered : v.Ordered)
    (notFinite : v.allNumbers Binary64.isFinite = false) (t : List Char) :
    Refuses value (v.display ++ t) := by
  induction v generalizing t with
  | number x => exact value_refuses_of_not_finite notFinite t
  | boolean b => cases notFinite
  | string text => cases notFinite
  | array items ih =>
      have each := orderedItems_iff.mp ordered
      obtain ⟨bad, member, spoilt⟩ := exists_item_of_allNumbers_eq_false notFinite
      cases items with
      | nil => cases member
      | cons item items =>
          have elements : ∀ x ∈ item :: items, Shown value ']' display x := fun x present =>
            shown_item (each x present) (ih x present (each x present))
          have refused := ih bad member (each bad member) spoilt
          rw [display, displayItems_eq]
          simp only [List.cons_append, List.append_assoc, List.nil_append]
          apply value_refuses_bracket
          exact between_refuses_of_bad rfl rfl (by decide) takes_value.zero elements
            ⟨bad, member, refused⟩ (']' :: t)
  | object entries ih =>
      have each := orderedEntries_iff.mp ordered.2
      obtain ⟨bad, member, spoilt⟩ := exists_entry_of_allNumbers_eq_false notFinite
      cases entries with
      | nil => cases member
      | cons entry entries =>
          have elements : ∀ x ∈ entry :: entries,
              Shown (entryOf fun _ => value) '\x7d' displayEntry x := fun x present =>
            shown_entry (each x present) (ih x present (each x present))
          have refused := ih bad member (each bad member) spoilt
          have layout : display (.object (entry :: entries)) =
              '\x7b' :: (displayEntry entry ++ displayEntries entries) := by
            rw [display, displayEntry, List.append_assoc, List.cons_append]
          rw [layout, displayEntries_eq]
          simp only [List.cons_append, List.append_assoc, List.nil_append]
          apply value_refuses_brace
          exact between_refuses_of_bad rfl rfl (by decide) (takes_entryOf takes_value).zero elements
            ⟨bad, member, fun t => entryOf_refuses (refused t)⟩ ('\x7d' :: t)

end Json.Grammar

namespace Json

theorem parse_display_of_not_finite {v : Json} (ordered : v.Ordered)
    (notFinite : v.allNumbers Binary64.isFinite = false) :
    Grammar.document.parse v.display = .fail ⟨"JSON value", "no match"⟩ ∧
      ∃ error, Grammar.value.parse v.display = .fail error := by
  have refuses := Grammar.value_refuses_display v ordered notFinite []
  have front := Grammar.dropWhile_display v []
  rw [List.append_nil] at refuses front
  constructor
  · refine Grammar.parse_document_eq_fail_iff.mpr (Or.inl ⟨rfl, ?_⟩)
    rw [front]
    exact refuses
  · obtain ⟨error, failed⟩ := refuses
    exact ⟨error, by rw [Parser.parse_eq, failed]; rfl⟩

theorem parse_display_of_finite {v : Json} (ordered : v.Ordered)
    (finite : v.allNumbers Binary64.isFinite = true) : Grammar.value.parse v.display = .ok v := by
  have read := Grammar.run_value_of_valueText (valueText_display v ordered finite) fun _ _ => apart_nil
  rw [List.append_nil] at read
  rw [Parser.parse_eq, read]
  rfl

/-- One number that is not finite spoils the text of a whole tree, with one and the same report. A tree
that comes from a text can hold infinite numbers only, where a literal was too large. That it holds none
is all that it takes to read an equal tree back, and all that it takes to exchange it without a null,
whatever the encoder puts for a finite number. -/
theorem finite_iff_read_back :
    (∀ v : Json, v.Ordered → v.allNumbers Binary64.isFinite = false →
      Grammar.document.parse v.display = .fail ⟨"JSON value", "no match"⟩) ∧
    ∀ (s : List Char) (v : Json), Grammar.document.parse s = .ok v →
      (v.allNumbers Binary64.isFinite = true ↔ v.allNumbers (fun x => !x.isInfinite) = true) ∧
      (v.allNumbers Binary64.isFinite = true ↔
        ∃ w, Grammar.value.parse v.display = .ok w ∧ v.equal w = true) ∧
      ∀ number : Binary64 → Interchange,
        (∀ x, x.isFinite = true → (number x).hasNull = false) →
        (∀ x, x.isFinite = false → number x = .null) →
        (v.allNumbers Binary64.isFinite = true ↔ (v.encode number).hasNull = false) := by
  refine ⟨fun v ordered notFinite => (parse_display_of_not_finite ordered notFinite).1, ?_⟩
  intro s v accepted
  obtain ⟨blanks, text⟩ := Grammar.documentText_of_parse accepted
  have ordered := text.ordered
  have numbers := text.not_nan
  have split := allNumbers_and_iff (fun x => !x.isInfinite) (fun x => !x.isNaN) v
  rw [funext fun x => (Binary64.isFinite_eq x).symm] at split
  refine ⟨?_, ?_, fun number finite notFinite => (hasNull_encode_iff finite notFinite v).symm⟩
  · rw [split]
    exact and_iff_left numbers
  · constructor
    · intro finite
      exact ⟨v, parse_display_of_finite ordered finite, (equal_self_iff v).mpr numbers⟩
    · rintro ⟨w, read, _⟩
      by_contra notFinite
      obtain ⟨error, failed⟩ :=
        (parse_display_of_not_finite ordered (Bool.eq_false_iff.mpr notFinite)).2
      rw [failed] at read
      cases read

/-- A literal of 310 digits is accepted, and what it became is not. -/
theorem finite_iff_read_back_of_overflow :
    let s := '[' :: ('1' :: List.replicate 309 '0' ++ [']'])
    let v := Json.array [.number ⟨false, Binary64.infinity⟩]
    v.Ordered ∧ v.allNumbers Binary64.isFinite = false ∧ Grammar.document.parse s = .ok v ∧
      Grammar.document.parse v.display = .fail ⟨"JSON value", "no match"⟩ ∧
      (¬∃ w, Grammar.value.parse v.display = .ok w ∧ v.equal w = true) ∧
      v.interchange.hasNull = true := by
  intro s v
  have ordered : v.Ordered := ⟨trivial, trivial⟩
  have notFinite : v.allNumbers Binary64.isFinite = false := rfl
  have digits : Digits (List.replicate 309 '0') := by
    intro d member
    rw [List.eq_of_mem_replicate member]
    rfl
  have numeral : NumeralText ('1' :: List.replicate 309 '0') :=
    (WholeText.leading rfl (by decide) digits).numeralText
  have number := numeral.numberText (x := ⟨false, Binary64.infinity⟩) (by decide +kernel)
  have text : ValueText s v := .array (enclosedText_of_separated (.one (.number number)))
  have accepted : Grammar.document.parse s = .ok v :=
    Grammar.parse_of_documentText (.mk blanks_nil text)
  have encodes : ∀ x : Binary64, x.isFinite = true → x.interchange.hasNull = false := by
    intro x finite
    rw [Binary64.interchange, if_pos finite]
    rfl
  have drops : ∀ x : Binary64, x.isFinite = false → x.interchange = .null := by
    intro x infinite
    rw [Binary64.interchange, infinite]
    rfl
  obtain ⟨_, back, encoded⟩ := finite_iff_read_back.2 s v accepted
  have exchange := encoded Binary64.interchange encodes drops
  rw [notFinite] at back exchange
  refine ⟨ordered, notFinite, accepted, finite_iff_read_back.1 v ordered notFinite, ?_, ?_⟩
  · exact fun again => Bool.false_ne_true (back.mpr again)
  · exact eq_true_of_ne_false fun free => Bool.false_ne_true (exchange.mpr free)

end Json

end Descent
