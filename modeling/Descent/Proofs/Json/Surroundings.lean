import Descent.Proofs.Json.Exact

namespace Descent.Json

variable {α : Type} {Element : List Char → α → Prop}

abbrev Gap := { w : List Char // Blanks w }

def Gap.empty : Gap := ⟨[], blanks_nil⟩

/-- A text with the blanks in front of it, and what it means. -/
structure Written (Element : List Char → α → Prop) where
  gap : Gap
  core : List Char
  meaning : α
  shape : Element core meaning

def Written.text (element : Written Element) : List Char := element.gap.val ++ element.core

/-- Texts with commas between them, in brackets, with these blanks behind either bracket. -/
def enclosed (opening closing : Char) (inside : Gap) (texts : List (List Char)) (behind : Gap) :
    List Char :=
  opening :: (inside.val ++ ([','].intercalate texts ++ closing :: behind.val))

theorem intercalate_append (mark s t : List Char) (texts : List (List Char)) :
    mark.intercalate ((s ++ t) :: texts) = s ++ mark.intercalate (t :: texts) := by
  cases texts with
  | nil => simp
  | cons u texts => simp [List.intercalate_cons_cons]

theorem separatedText_written (first : Written Element) (others : List (Written Element)) :
    SeparatedText Element ([','].intercalate (first.core :: others.map Written.text))
      (first.meaning :: others.map Written.meaning) := by
  induction others generalizing first with
  | nil =>
      rw [List.map_nil, List.intercalate_singleton]
      exact .one first.shape
  | cons second others ih =>
      have layout : [','].intercalate (first.core :: (second :: others).map Written.text) =
          first.core ++ ',' :: (second.gap.val ++
            [','].intercalate (second.core :: others.map Written.text)) := by
        rw [List.map_cons, List.intercalate_cons_cons, Written.text, intercalate_append]
        simp
      rw [layout]
      exact .more first.shape second.gap.property (ih second)

theorem enclosedText_written (opening closing : Char) (inside : Gap)
    (elements : List (Written Element)) (behind : Gap) :
    EnclosedText opening closing Element
      (enclosed opening closing inside (elements.map Written.text) behind)
      (elements.map Written.meaning) := by
  cases elements with
  | nil => exact .empty inside.property behind.property
  | cons first others =>
      have blanks : Blanks (inside.val ++ first.gap.val) :=
        List.forall_mem_append.mpr ⟨inside.property, first.gap.property⟩
      have layout : enclosed opening closing inside ((first :: others).map Written.text) behind =
          opening :: ((inside.val ++ first.gap.val) ++
            ([','].intercalate (first.core :: others.map Written.text) ++
              closing :: behind.val)) := by
        rw [enclosed, List.map_cons, Written.text, intercalate_append]
        simp only [List.append_assoc]
      rw [layout]
      exact .filled blanks (separatedText_written first others) behind.property

theorem exists_written_of_separatedText {s : List Char} {xs : List α}
    (separated : SeparatedText Element s xs) (gap : Gap) :
    ∃ elements : List (Written Element), elements ≠ [] ∧
      gap.val ++ s = [','].intercalate (elements.map Written.text) ∧
      xs = elements.map Written.meaning := by
  induction separated generalizing gap with
  | one last =>
      refine ⟨[⟨gap, _, _, last⟩], List.cons_ne_nil _ _, ?_, rfl⟩
      simp [Written.text]
  | @more s w rest x xs first blanks following ih =>
      rcases ih ⟨w, blanks⟩ with ⟨elements, nonempty, layout, rfl⟩
      refine ⟨⟨gap, s, x, first⟩ :: elements, List.cons_ne_nil _ _, ?_, rfl⟩
      rw [List.map_cons, List.intercalate_cons_of_ne_nil (by simpa using nonempty), ← layout]
      simp [Written.text]

theorem enclosedText_iff_written {opening closing : Char} {s : List Char} {xs : List α} :
    EnclosedText opening closing Element s xs ↔
      ∃ (inside : Gap) (elements : List (Written Element)) (behind : Gap),
        s = enclosed opening closing inside (elements.map Written.text) behind ∧
        xs = elements.map Written.meaning := by
  constructor
  · intro text
    cases text with
    | empty inside behind => exact ⟨⟨_, inside⟩, [], ⟨_, behind⟩, rfl, rfl⟩
    | @filled w s w' xs inside separated behind =>
        rcases exists_written_of_separatedText separated Gap.empty with ⟨elements, _, layout, rfl⟩
        refine ⟨⟨w, inside⟩, elements, ⟨w', behind⟩, ?_, rfl⟩
        rw [enclosed, ← layout]
        rfl
  · rintro ⟨inside, elements, behind, rfl, rfl⟩
    exact enclosedText_written opening closing inside elements behind

/-- What is written around a value: the blanks in front of a document, or the rest of an array or of an
object that itself stands somewhere. -/
inductive Around where
  | document (front : Gap)
  | item (outer : Around) (inside : Gap) (before : List (Written ValueText)) (gap : Gap)
      (after : List (Written ValueText)) (behind : Gap)
  | entry (outer : Around) (inside : Gap) (before : List (Written (EntryText ValueText)))
      (key : Written StringText) (gap : Gap) (after : List (Written (EntryText ValueText)))
      (behind : Gap)

namespace Around

def fill : Around → List Char → List Char
  | document front, s => front.val ++ s
  | item outer inside before gap after behind, s =>
    outer.fill (enclosed '[' ']' inside
      (before.map Written.text ++ (gap.val ++ s) :: after.map Written.text) behind)
  | entry outer inside before key gap after behind, s =>
    outer.fill (enclosed '\x7b' '\x7d' inside
      (before.map Written.text ++ (key.text ++ ':' :: (gap.val ++ s)) :: after.map Written.text)
      behind)

def meaning : Around → Json → Json
  | document _, v => v
  | item outer _ before _ after _, v =>
    outer.meaning (.array (before.map Written.meaning ++ v :: after.map Written.meaning))
  | entry outer _ before key _ after _, v =>
    outer.meaning
      (ofBindings (before.map Written.meaning ++ (key.meaning, v) :: after.map Written.meaning))

theorem documentText_fill (around : Around) {s : List Char} {v : Json} (value : ValueText s v) :
    DocumentText (around.fill s) (around.meaning v) := by
  induction around generalizing s v with
  | document front => exact .mk front.property value
  | item outer inside before gap after behind ih =>
      have text := enclosedText_written '[' ']' inside (before ++ ⟨gap, s, v, value⟩ :: after) behind
      rw [List.map_append, List.map_append, List.map_cons, List.map_cons] at text
      exact ih (.array text)
  | entry outer inside before key gap after behind ih =>
      have bound : EntryText ValueText (key.core ++ ':' :: (gap.val ++ s)) (key.meaning, v) :=
        .mk key.shape gap.property value
      have text := enclosedText_written '\x7b' '\x7d' inside
        (before ++ ⟨key.gap, _, _, bound⟩ :: after) behind
      rw [List.map_append, List.map_append, List.map_cons, List.map_cons, Written.text,
        ← List.append_assoc] at text
      exact ih (.object text (Entries.collects_ofBindings _))

theorem read_fill (around : Around) {s : List Char} {v : Json} (value : ValueText s v) :
    read (String.ofList (around.fill s)) = .ok (around.meaning v) := by
  rw [read, String.toList_ofList]
  exact Grammar.parse_of_documentText (around.documentText_fill value)

end Around

inductive Part (part : Json) : Json → Prop
  | whole : Part part part
  | item {items : List Json} {x : Json} (member : x ∈ items) (inner : Part part x) :
      Part part (.array items)
  | entry {entries : Entries Json} {key : String} {x : Json} (member : (key, x) ∈ entries)
      (inner : Part part x) : Part part (.object entries)

theorem exists_split_of_mem_meaning {elements : List (Written Element)} {a : α}
    (member : a ∈ elements.map Written.meaning) :
    ∃ before element after, elements = before ++ element :: after ∧ element.meaning = a := by
  rcases List.mem_map.mp member with ⟨element, present, same⟩
  rcases List.append_of_mem present with ⟨before, after, split⟩
  exact ⟨before, element, after, split, same⟩

/-- Every part of what a document means stands somewhere in its text. -/
theorem exists_around_of_part (around : Around) {s : List Char} {part v : Json}
    (value : ValueText s v) (inner : Part part v) :
    ∃ (deeper : Around) (t : List Char), around.fill s = deeper.fill t ∧ ValueText t part := by
  induction inner generalizing around s with
  | whole => exact ⟨around, s, rfl, value⟩
  | @item items x member inner ih =>
      cases value with
      | array text =>
          rcases enclosedText_iff_written.mp text with ⟨inside, elements, behind, rfl, rfl⟩
          rcases exists_split_of_mem_meaning member with ⟨before, element, after, rfl, rfl⟩
          rcases ih (.item around inside before element.gap after behind)
            element.shape with ⟨deeper, t, same, shape⟩
          refine ⟨deeper, t, ?_, shape⟩
          rw [← same, List.map_append, List.map_cons]
          rfl
  | @entry entries key x member inner ih =>
      cases value with
      | object text last =>
          rcases enclosedText_iff_written.mp text with ⟨inside, elements, behind, rfl, rfl⟩
          rw [last.eq_ofBindings] at member
          rcases exists_split_of_mem_meaning (Entries.mem_ofBindings member) with
            ⟨before, ⟨gap, core, meaning, shape⟩, after, rfl, rfl⟩
          rcases shape with @⟨k, w, t, _, _, name, blanks, bound⟩
          rcases ih (.entry around inside before ⟨gap, k, key, name⟩ ⟨w, blanks⟩ after behind)
            bound with ⟨deeper, u, same, found⟩
          refine ⟨deeper, u, ?_, found⟩
          rw [← same, List.map_append, List.map_cons, Around.fill]
          simp only [Written.text, List.append_assoc]

end Descent.Json
