import Descent.Proofs.Json.Derivation
import Descent.Proofs.Json.Tree

namespace Descent.Json

variable {α : Type} {Element : List Char → α → Prop}

theorem SeparatedText.each {s : List Char} {xs : List α} (separated : SeparatedText Element s xs) :
    ∀ x ∈ xs, ∃ t, Element t x := by
  induction separated with
  | one last => exact List.forall_mem_singleton.mpr ⟨_, last⟩
  | more first blanks following ih => exact List.forall_mem_cons.mpr ⟨⟨_, first⟩, ih⟩

theorem EnclosedText.each {opening closing : Char} {s : List Char} {xs : List α}
    (enclosed : EnclosedText opening closing Element s xs) : ∀ x ∈ xs, ∃ t, Element t x := by
  cases enclosed with
  | empty inside behind => exact List.forall_mem_nil _
  | filled inside elements behind => exact elements.each

theorem ValueText.each_item {s : List Char} {items : List Json} (text : ValueText s (.array items)) :
    ∀ item ∈ items, ∃ t, ValueText t item := by
  cases text with
  | array enclosed => exact enclosed.each

theorem ValueText.each_entry {s : List Char} {entries : Entries Json}
    (text : ValueText s (.object entries)) : ∀ entry ∈ entries, ∃ t, ValueText t entry.2 := by
  cases text with
  | object enclosed last =>
      intro entry member
      rw [last.eq_ofBindings] at member
      obtain ⟨t, ⟨name, blanks, bound⟩⟩ := enclosed.each entry (Entries.mem_ofBindings member)
      exact ⟨_, bound⟩

theorem ValueText.ordered {s : List Char} {v : Json} (text : ValueText s v) : v.Ordered := by
  induction v generalizing s with
  | number x => trivial
  | boolean b => trivial
  | string text => trivial
  | array items ih =>
      refine orderedItems_iff.mpr ?_
      intro item member
      obtain ⟨t, shape⟩ := text.each_item item member
      exact ih item member shape
  | object entries ih =>
      refine ⟨?_, orderedEntries_iff.mpr ?_⟩
      · cases text with
        | object enclosed last => exact last.ascending
      · intro entry member
        obtain ⟨t, shape⟩ := text.each_entry entry member
        exact ih entry member shape

theorem ValueText.not_nan {s : List Char} {v : Json} (text : ValueText s v) :
    v.allNumbers (fun x => !x.isNaN) = true := by
  induction v generalizing s with
  | number x =>
      cases text with
      | number shape =>
          obtain ⟨numeral, meaning, blanks⟩ := shape
          rw [allNumbers, Binary64.read_not_nan meaning]
          rfl
  | boolean b => rfl
  | string text => rfl
  | array items ih =>
      refine allNumbersItems_iff.mpr ?_
      intro item member
      obtain ⟨t, shape⟩ := text.each_item item member
      exact ih item member shape
  | object entries ih =>
      refine allNumbersEntries_iff.mpr ?_
      intro entry member
      obtain ⟨t, shape⟩ := text.each_entry entry member
      exact ih entry member shape

end Descent.Json
