import Mathlib.Data.List.Nodup
import Descent.Json.Entries

namespace Descent.Entries

variable {α : Type} {bindings bindings' : List (String × α)} {key : String} {value : α}

/-- The binding of the key that no other one follows has this value. -/
def LastBinding (bindings : List (String × α)) (key : String) (value : α) : Prop :=
  ∃ front back, bindings = front ++ (key, value) :: back ∧ ∀ later ∈ back, later.1 ≠ key

theorem lookup_reverse_eq_some_iff :
    bindings.reverse.lookup key = some value ↔ LastBinding bindings key value := by
  rw [List.lookup_eq_some_iff]
  constructor
  · rintro ⟨back, front, split, others⟩
    refine ⟨front.reverse, back.reverse, ?_, ?_⟩
    · rw [List.reverse_eq_iff.mp split]
      simp
    · intro later member
      have other := others later (List.mem_reverse.mp member)
      exact (bne_iff_ne.mp other).symm
  · rintro ⟨front, back, rfl, others⟩
    refine ⟨back.reverse, front.reverse, by simp, ?_⟩
    intro later member
    exact bne_iff_ne.mpr (others later (List.mem_reverse.mp member)).symm

/-- Bindings that come later are asked first. -/
theorem lookup_reverse_append (front back : List (String × α)) (key : String) :
    (front ++ back).reverse.lookup key =
      (back.reverse.lookup key).or (front.reverse.lookup key) := by
  rw [List.reverse_append, List.lookup_append]

theorem Ascending.mem_iff {entries : Entries α} (ascending : Ascending entries) :
    (key, value) ∈ entries ↔ get? key entries = some value := by
  induction entries with
  | nil => simp [get?]
  | cons head entries ih =>
      obtain ⟨k, v⟩ := head
      obtain ⟨above, tail⟩ := List.pairwise_cons.mp ascending
      rw [List.mem_cons, ih tail, get?]
      by_cases same : key = k
      · subst same
        rw [get?_eq_none above, if_pos rfl]
        simp [eq_comm]
      · rw [if_neg same]
        simp [same]

/-- The entries are the last bindings. -/
theorem mem_ofBindings_iff :
    (key, value) ∈ ofBindings bindings ↔ LastBinding bindings key value := by
  have collects := collects_ofBindings bindings
  rw [collects.ascending.mem_iff, collects.last, lookup_reverse_eq_some_iff]

theorem key_mem_ofBindings_iff :
    key ∈ (ofBindings bindings).map Prod.fst ↔ key ∈ bindings.map Prod.fst := by
  have found : (∃ value, (key, value) ∈ ofBindings bindings) ↔ ∃ value, (key, value) ∈ bindings := by
    simp only [mem_ofBindings_iff, ← lookup_reverse_eq_some_iff, ← Option.isSome_iff_exists,
      List.lookup_isSome_iff, List.mem_reverse, beq_iff_eq]
    constructor
    · rintro ⟨binding, member, rfl⟩
      exact ⟨binding.2, member⟩
    · rintro ⟨value, member⟩
      exact ⟨_, member, rfl⟩
  simpa only [List.mem_map, Prod.exists, exists_and_right, exists_eq_right] using found

theorem ofBindings_eq_of_lookup
    (same : ∀ key, bindings.reverse.lookup key = bindings'.reverse.lookup key) :
    ofBindings bindings = ofBindings bindings' := by
  have collects := collects_ofBindings bindings
  refine Collects.eq_ofBindings ⟨collects.ascending, fun key => ?_⟩
  rw [collects.last, same]

/-- Where no key is bound twice, every binding is the last one of its key. -/
theorem lookup_reverse_eq_some_iff_mem (different : (bindings.map Prod.fst).Nodup) :
    bindings.reverse.lookup key = some value ↔ (key, value) ∈ bindings := by
  rw [lookup_reverse_eq_some_iff]
  constructor
  · rintro ⟨front, back, rfl, _⟩
    exact List.mem_append_right front List.mem_cons_self
  · intro member
    obtain ⟨front, back, rfl⟩ := List.append_of_mem member
    refine ⟨front, back, rfl, ?_⟩
    intro later follows same
    rw [List.map_append, List.map_cons] at different
    have once := (List.nodup_cons.mp different.of_append_right).1
    exact once (List.mem_map.mpr ⟨later, follows, same⟩)

theorem lookup_reverse_perm (perm : bindings.Perm bindings')
    (different : (bindings.map Prod.fst).Nodup) (key : String) :
    bindings.reverse.lookup key = bindings'.reverse.lookup key := by
  have different' : (bindings'.map Prod.fst).Nodup := (perm.map Prod.fst).nodup_iff.mp different
  apply Option.ext
  intro value
  rw [lookup_reverse_eq_some_iff_mem different, lookup_reverse_eq_some_iff_mem different',
    perm.mem_iff]

theorem ofBindings_permuted (front back : List (String × α)) (perm : bindings.Perm bindings')
    (different : (bindings.map Prod.fst).Nodup) :
    ofBindings (front ++ bindings ++ back) = ofBindings (front ++ bindings' ++ back) := by
  apply ofBindings_eq_of_lookup
  intro key
  simp only [lookup_reverse_append, lookup_reverse_perm perm different]

theorem ofBindings_inserted (front : List (String × α)) {extra back : List (String × α)}
    (replaced : ∀ binding ∈ extra, ∃ later ∈ back, later.1 = binding.1) :
    ofBindings (front ++ extra ++ back) = ofBindings (front ++ back) := by
  apply ofBindings_eq_of_lookup
  intro key
  simp only [lookup_reverse_append]
  cases bound : back.reverse.lookup key with
  | some value => rfl
  | none =>
      have absent : extra.reverse.lookup key = none := by
        rw [List.lookup_eq_none_iff] at bound ⊢
        intro binding member
        obtain ⟨later, follows, same⟩ := replaced binding (List.mem_reverse.mp member)
        rw [← same]
        exact bound later (List.mem_reverse.mpr follows)
      rw [absent, Option.none_or]

end Descent.Entries
