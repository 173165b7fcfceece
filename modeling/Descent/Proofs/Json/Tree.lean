import Mathlib.Data.List.Forall2
import Descent.Json.Display
import Descent.Json.Interchange

namespace Descent.Json

@[induction_eliminator]
theorem induct {motive : Json → Prop} (number : ∀ x, motive (.number x))
    (boolean : ∀ b, motive (.boolean b)) (string : ∀ text, motive (.string text))
    (array : ∀ items, (∀ item ∈ items, motive item) → motive (.array items))
    (object : ∀ entries, (∀ entry ∈ entries, motive entry.2) → motive (.object entries))
    (v : Json) : motive v :=
  @Json.rec motive (fun items => ∀ item ∈ items, motive item)
    (fun entries => ∀ entry ∈ entries, motive entry.2) (fun entry => motive entry.2)
    number boolean string array object
    (List.forall_mem_nil _) (fun _ _ here there => List.forall_mem_cons.mpr ⟨here, there⟩)
    (List.forall_mem_nil _) (fun _ _ here there => List.forall_mem_cons.mpr ⟨here, there⟩)
    (fun _ _ here => here) v

theorem orderedItems_iff {items : List Json} :
    OrderedItems items ↔ ∀ item ∈ items, item.Ordered := by
  induction items with
  | nil => simp [OrderedItems]
  | cons item items ih => simp [OrderedItems, ih]

theorem orderedEntries_iff {entries : List (String × Json)} :
    OrderedEntries entries ↔ ∀ entry ∈ entries, entry.2.Ordered := by
  induction entries with
  | nil => simp [OrderedEntries]
  | cons entry entries ih => simp [OrderedEntries, ih]

theorem allNumbersItems_iff {test : Binary64 → Bool} {items : List Json} :
    allNumbersItems test items = true ↔ ∀ item ∈ items, item.allNumbers test = true := by
  induction items with
  | nil => simp [allNumbersItems]
  | cons item items ih => simp [allNumbersItems, ih]

theorem allNumbersEntries_iff {test : Binary64 → Bool} {entries : List (String × Json)} :
    allNumbersEntries test entries = true ↔ ∀ entry ∈ entries, entry.2.allNumbers test = true := by
  induction entries with
  | nil => simp [allNumbersEntries]
  | cons entry entries ih => simp [allNumbersEntries, ih]

theorem exists_item_of_allNumbers_eq_false {test : Binary64 → Bool} {items : List Json}
    (fails : allNumbersItems test items = false) :
    ∃ item ∈ items, item.allNumbers test = false := by
  rw [← Bool.not_eq_true, allNumbersItems_iff] at fails
  simpa only [not_forall, Bool.not_eq_true, exists_prop] using fails

theorem exists_entry_of_allNumbers_eq_false {test : Binary64 → Bool}
    {entries : List (String × Json)} (fails : allNumbersEntries test entries = false) :
    ∃ entry ∈ entries, entry.2.allNumbers test = false := by
  rw [← Bool.not_eq_true, allNumbersEntries_iff] at fails
  simpa only [not_forall, Bool.not_eq_true, exists_prop] using fails

theorem equalItems_iff {xs ys : List Json} :
    equalItems xs ys = true ↔ List.Forall₂ (fun x y => x.equal y = true) xs ys := by
  induction xs generalizing ys with
  | nil => cases ys <;> simp [equalItems]
  | cons x xs ih => cases ys <;> simp [equalItems, ih]

theorem equalEntries_iff {xs ys : List (String × Json)} :
    equalEntries xs ys = true ↔
      List.Forall₂ (fun x y => x.1 = y.1 ∧ x.2.equal y.2 = true) xs ys := by
  induction xs generalizing ys with
  | nil => cases ys <;> simp [equalEntries]
  | cons x xs ih => cases ys <;> simp [equalEntries, ih]

theorem hasNullItems_iff {number : Binary64 → Interchange} {items : List Json} :
    Interchange.hasNullItems (encodeItems number items) = false ↔
      ∀ item ∈ items, (item.encode number).hasNull = false := by
  induction items with
  | nil => simp [encodeItems, Interchange.hasNullItems]
  | cons item items ih => simp [encodeItems, Interchange.hasNullItems, ih]

theorem hasNullEntries_iff {number : Binary64 → Interchange} {entries : List (String × Json)} :
    Interchange.hasNullEntries (encodeEntries number entries) = false ↔
      ∀ entry ∈ entries, (entry.2.encode number).hasNull = false := by
  induction entries with
  | nil => simp [encodeEntries, Interchange.hasNullEntries]
  | cons entry entries ih => simp [encodeEntries, Interchange.hasNullEntries, ih]

/-- The text of an entry, key and value. -/
def displayEntry (entry : String × Json) : List Char :=
  quoted entry.1 ++ ':' :: entry.2.display

theorem displayItems_eq (items : List Json) :
    displayItems items = (items.flatMap fun item => ',' :: item.display) ++ [']'] := by
  induction items with
  | nil => rfl
  | cons item items ih => simp [displayItems, ih]

theorem displayEntries_eq (entries : List (String × Json)) :
    displayEntries entries = (entries.flatMap fun entry => ',' :: displayEntry entry) ++ ['\x7d'] := by
  induction entries with
  | nil => rfl
  | cons entry entries ih => simp [displayEntries, displayEntry, ih]

theorem intercalate_map_cons {α : Type} (shown : α → List Char) (x : α) (xs : List α) :
    [','].intercalate ((x :: xs).map shown) = shown x ++ xs.flatMap fun y => ',' :: shown y := by
  induction xs generalizing x with
  | nil => simp
  | cons y xs ih =>
      rw [List.map_cons, List.map_cons, List.intercalate_cons_cons, ← List.map_cons, ih]
      simp

theorem display_array (items : List Json) :
    display (.array items) = '[' :: ([','].intercalate (items.map display) ++ [']']) := by
  cases items with
  | nil => rfl
  | cons item items => rw [display, displayItems_eq, intercalate_map_cons, List.append_assoc]

theorem display_object (entries : List (String × Json)) :
    display (.object entries) =
      '\x7b' :: ([','].intercalate (entries.map displayEntry) ++ ['\x7d']) := by
  cases entries with
  | nil => rfl
  | cons entry entries =>
      rw [display, displayEntries_eq, intercalate_map_cons, displayEntry]
      simp only [List.append_assoc, List.cons_append]

mutual

/-- The same tree with other numbers and other texts, also for the keys. -/
def mapLeaves (f : Binary64 → Binary64) (g : String → String) : Json → Json
  | .number x => .number (f x)
  | .boolean b => .boolean b
  | .string text => .string (g text)
  | .array items => .array (mapLeavesItems f g items)
  | .object entries => .object (mapLeavesEntries f g entries)

def mapLeavesItems (f : Binary64 → Binary64) (g : String → String) : List Json → List Json
  | [] => []
  | item :: items => mapLeaves f g item :: mapLeavesItems f g items

def mapLeavesEntries (f : Binary64 → Binary64) (g : String → String) :
    List (String × Json) → List (String × Json)
  | [] => []
  | (key, value) :: entries => (g key, mapLeaves f g value) :: mapLeavesEntries f g entries

end

section Leaves

variable {f : Binary64 → Binary64} {g : String → String}

theorem mapLeavesItems_eq (items : List Json) :
    mapLeavesItems f g items = items.map (mapLeaves f g) := by
  induction items with
  | nil => rfl
  | cons item items ih => rw [mapLeavesItems, ih, List.map_cons]

theorem mapLeavesEntries_eq (entries : List (String × Json)) :
    mapLeavesEntries f g entries =
      entries.map fun entry => (g entry.1, entry.2.mapLeaves f g) := by
  induction entries with
  | nil => rfl
  | cons entry entries ih => rw [mapLeavesEntries, ih, List.map_cons]

theorem allNumbers_mapLeaves_iff {test : Binary64 → Bool} {v : Json} :
    (v.mapLeaves f g).allNumbers test = true ↔ v.allNumbers (fun x => test (f x)) = true := by
  induction v with
  | number x => rfl
  | boolean b => rfl
  | string text => rfl
  | array items ih =>
      rw [mapLeaves, mapLeavesItems_eq, allNumbers, allNumbersItems_iff, allNumbers,
        allNumbersItems_iff, List.forall_mem_map]
      exact forall₂_congr ih
  | object entries ih =>
      rw [mapLeaves, mapLeavesEntries_eq, allNumbers, allNumbersEntries_iff, allNumbers,
        allNumbersEntries_iff, List.forall_mem_map]
      exact forall₂_congr ih

end Leaves

/-- A tree equals itself unless it holds what is not a number. -/
theorem equal_self_iff (v : Json) :
    v.equal v = true ↔ v.allNumbers (fun x => !x.isNaN) = true := by
  induction v with
  | number x => rw [equal, allNumbers, Binary64.equal_self]
  | boolean b => simp [equal, allNumbers]
  | string text => simp [equal, allNumbers]
  | array items ih =>
      rw [equal, equalItems_iff, List.forall₂_same, allNumbers, allNumbersItems_iff]
      exact forall₂_congr ih
  | object entries ih =>
      simp only [equal, equalEntries_iff, List.forall₂_same, true_and, allNumbers,
        allNumbersEntries_iff]
      exact forall₂_congr ih

theorem allNumbers_and_iff (f g : Binary64 → Bool) (v : Json) :
    v.allNumbers (fun x => f x && g x) = true ↔
      v.allNumbers f = true ∧ v.allNumbers g = true := by
  induction v with
  | number x => rw [allNumbers, allNumbers, allNumbers, Bool.and_eq_true]
  | boolean b => simp [allNumbers]
  | string text => simp [allNumbers]
  | array items ih =>
      simp only [allNumbers, allNumbersItems_iff]
      exact (forall₂_congr ih).trans forall₂_and
  | object entries ih =>
      simp only [allNumbers, allNumbersEntries_iff]
      exact (forall₂_congr ih).trans forall₂_and

theorem hasNull_encode_iff {number : Binary64 → Interchange}
    (finite : ∀ x, x.isFinite = true → (number x).hasNull = false)
    (notFinite : ∀ x, x.isFinite = false → number x = .null) (v : Json) :
    (v.encode number).hasNull = false ↔ v.allNumbers Binary64.isFinite = true := by
  induction v with
  | number x =>
      rw [encode, allNumbers]
      cases test : x.isFinite with
      | true => simp [finite x test]
      | false => simp [notFinite x test, Interchange.hasNull]
  | boolean b => simp [encode, Interchange.hasNull, allNumbers]
  | string text => simp [encode, Interchange.hasNull, allNumbers]
  | array items ih =>
      rw [encode, Interchange.hasNull, hasNullItems_iff, allNumbers, allNumbersItems_iff]
      exact forall₂_congr ih
  | object entries ih =>
      rw [encode, Interchange.hasNull, hasNullEntries_iff, allNumbers, allNumbersEntries_iff]
      exact forall₂_congr ih

end Descent.Json
