import Descent.Proofs.Json.Tree

namespace Descent

namespace Binary64

/-- Zero instead of minus zero, and all else as it is. -/
def positiveZero (x : Binary64) : Binary64 := if x = ⟨true, 0⟩ then ⟨false, 0⟩ else x

theorem positiveZero_eq (x : Binary64) :
    x.positiveZero = if x.isZero then ⟨false, 0⟩ else x := by
  obtain ⟨negative, magnitude⟩ := x
  cases zero : isZero ⟨negative, magnitude⟩ with
  | true =>
      have nothing : magnitude = 0 := Fin.ext (of_decide_eq_true zero)
      rw [nothing]
      cases negative <;> rfl
  | false =>
      apply if_neg
      intro minus
      rw [minus] at zero
      cases zero

theorem isNaN_positiveZero (x : Binary64) : x.positiveZero.isNaN = x.isNaN := by
  rw [positiveZero_eq]
  split
  · rename_i zero
    have nothing : x.magnitude = 0 := Fin.ext (of_decide_eq_true zero)
    rw [isNaN, isNaN, nothing]
  · rfl

theorem equal_iff {x y : Binary64} :
    x.equal y = true ↔
      (x.isNaN = false ∧ y.isNaN = false) ∧ x.positiveZero = y.positiveZero := by
  have apart : ∀ {u v : Binary64}, u.isZero = true → v.isZero = false → u ≠ v := by
    intro u v zero other same
    rw [same, other] at zero
    cases zero
  have plus : isZero ⟨false, 0⟩ = true := rfl
  have zeros : x = y ∨ x.isZero = true ∧ y.isZero = true ↔ x.positiveZero = y.positiveZero := by
    rw [positiveZero_eq, positiveZero_eq]
    cases zero : x.isZero with
    | true =>
        cases zero' : y.isZero with
        | true => simp
        | false => simp [apart zero zero', apart plus zero']
    | false =>
        cases zero' : y.isZero with
        | true => simp [(apart zero' zero).symm, (apart plus zero).symm]
        | false => simp
  simp [equal, zeros]

end Binary64

namespace Json

/-- Every number in the tree is one. -/
def Numeric (v : Json) : Prop := v.allNumbers (fun x => !x.isNaN) = true

theorem numeric_number {x : Binary64} : (Json.number x).Numeric ↔ x.isNaN = false := by
  simp [Numeric, allNumbers]

theorem numeric_array {items : List Json} :
    (Json.array items).Numeric ↔ ∀ item ∈ items, item.Numeric := allNumbersItems_iff

theorem numeric_object {entries : List (String × Json)} :
    (Json.object entries).Numeric ↔ ∀ entry ∈ entries, entry.2.Numeric := allNumbersEntries_iff

/-- The tree with zero for each minus zero in it. -/
def positiveZeros (v : Json) : Json := v.mapLeaves Binary64.positiveZero id

theorem positiveZeros_array (items : List Json) :
    (Json.array items).positiveZeros = .array (items.map positiveZeros) := by
  rw [positiveZeros, mapLeaves, mapLeavesItems_eq]
  rfl

theorem positiveZeros_object (entries : List (String × Json)) :
    (Json.object entries).positiveZeros =
      .object (entries.map fun entry => (entry.1, entry.2.positiveZeros)) := by
  rw [positiveZeros, mapLeaves, mapLeavesEntries_eq]
  rfl

theorem numeric_positiveZeros {v : Json} : v.positiveZeros.Numeric ↔ v.Numeric := by
  simp only [Numeric, positiveZeros, allNumbers_mapLeaves_iff, Binary64.isNaN_positiveZero]

theorem forall₂_iff_map_eq {α β : Type} {related : α → α → Prop} {valid : α → Prop} {f : α → β}
    {xs ys : List α}
    (each : ∀ x ∈ xs, ∀ y, related x y ↔ (valid x ∧ valid y) ∧ f x = f y) :
    List.Forall₂ related xs ys ↔
      ((∀ x ∈ xs, valid x) ∧ ∀ y ∈ ys, valid y) ∧ xs.map f = ys.map f := by
  induction xs generalizing ys with
  | nil => cases ys <;> simp
  | cons x xs ih =>
      cases ys with
      | nil => simp
      | cons y ys =>
          obtain ⟨here, there⟩ := List.forall_mem_cons.mp each
          rw [List.forall₂_cons, here, ih there, List.forall_mem_cons, List.forall_mem_cons,
            List.map_cons, List.map_cons, List.cons.injEq]
          exact and_and_and_comm.trans (and_congr_left' and_and_and_comm)

/-- Trees are equal if they are the same up to the sign of zeros and hold numbers only. -/
theorem equal_iff {v w : Json} :
    v.equal w = true ↔ (v.Numeric ∧ w.Numeric) ∧ v.positiveZeros = w.positiveZeros := by
  induction v generalizing w with
  | number x =>
      cases w with
      | number y => simp [equal, Binary64.equal_iff, Numeric, allNumbers, positiveZeros, mapLeaves]
      | boolean | string | array | object => simp [equal, positiveZeros, mapLeaves]
  | boolean b =>
      cases w with
      | boolean c => simp [equal, Numeric, allNumbers, positiveZeros, mapLeaves]
      | number | string | array | object => simp [equal, positiveZeros, mapLeaves]
  | string text =>
      cases w with
      | string text' => simp [equal, Numeric, allNumbers, positiveZeros, mapLeaves]
      | number | boolean | array | object => simp [equal, positiveZeros, mapLeaves]
  | array items ih =>
      cases w with
      | array items' =>
          rw [equal, equalItems_iff, forall₂_iff_map_eq fun x member y => ih x member,
            numeric_array, numeric_array, positiveZeros_array, positiveZeros_array,
            Json.array.injEq]
      | number | boolean | string | object => simp [equal, positiveZeros, mapLeaves]
  | object entries ih =>
      cases w with
      | object entries' =>
          have each : ∀ x ∈ entries, ∀ y : String × Json,
              (x.1 = y.1 ∧ x.2.equal y.2 = true) ↔
                (x.2.Numeric ∧ y.2.Numeric) ∧
                  (x.1, x.2.positiveZeros) = (y.1, y.2.positiveZeros) := by
            intro x member y
            rw [ih x member, Prod.mk.injEq, and_left_comm]
          rw [equal, equalEntries_iff, forall₂_iff_map_eq each, numeric_object, numeric_object,
            positiveZeros_object, positiveZeros_object, Json.object.injEq]
      | number | boolean | string | array => simp [equal, positiveZeros, mapLeaves]

end Json

end Descent
