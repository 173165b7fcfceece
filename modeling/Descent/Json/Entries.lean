namespace Descent

abbrev Entries (α : Type) := List (String × α)

namespace Entries

variable {α : Type}

def Ascending (entries : Entries α) : Prop := entries.Pairwise fun a b => a.1 < b.1

/-- A key that is already there takes the new value. -/
def insert (key : String) (value : α) : Entries α → Entries α
  | [] => [(key, value)]
  | (k, v) :: entries =>
    if key < k then (key, value) :: (k, v) :: entries
    else if key = k then (key, value) :: entries
    else (k, v) :: insert key value entries

/-- Of the bindings of one key the last counts. -/
def ofBindings (bindings : List (String × α)) : Entries α :=
  bindings.foldl (fun entries binding => insert binding.1 binding.2 entries) []

def get? (key : String) : Entries α → Option α
  | [] => none
  | (k, v) :: entries => if key = k then some v else get? key entries

/-- The entries bind exactly the keys of the bindings, in ascending order, each to its last value. -/
structure Collects (bindings : List (String × α)) (entries : Entries α) : Prop where
  ascending : Ascending entries
  last : ∀ key, get? key entries = bindings.reverse.lookup key

theorem mem_insert {key : String} {value : α} {entries : Entries α} {binding : String × α}
    (member : binding ∈ insert key value entries) :
    binding = (key, value) ∨ binding ∈ entries := by
  induction entries with
  | nil => exact Or.inl (List.mem_singleton.mp member)
  | cons head entries ih =>
    unfold insert at member
    split at member
    · exact List.mem_cons.mp member
    · split at member
      · exact (List.mem_cons.mp member).imp_right (List.mem_cons_of_mem _)
      · rcases List.mem_cons.mp member with rfl | member
        · exact Or.inr List.mem_cons_self
        · exact (ih member).imp_right (List.mem_cons_of_mem _)

theorem ofBindings_induction {motive : Entries α → Prop} {bindings : List (String × α)}
    (empty : motive []) (step : ∀ binding ∈ bindings, ∀ entries, motive entries →
      motive (insert binding.1 binding.2 entries)) : motive (ofBindings bindings) :=
  List.foldlRecOn bindings _ empty fun entries holds binding member =>
    step binding member entries holds

theorem mem_ofBindings {binding : String × α} {bindings : List (String × α)}
    (member : binding ∈ ofBindings bindings) : binding ∈ bindings := by
  have within : ofBindings bindings ⊆ bindings := by
    refine ofBindings_induction (motive := fun entries => entries ⊆ bindings) ?_ ?_
    · exact List.nil_subset bindings
    · intro last present entries within entry added
      rcases mem_insert added with rfl | earlier
      · exact present
      · exact within earlier
  exact within member

theorem ascending_insert (key : String) (value : α) {entries : Entries α}
    (ascending : Ascending entries) : Ascending (insert key value entries) := by
  induction entries with
  | nil => exact List.pairwise_singleton _ _
  | cons head entries ih =>
    obtain ⟨above, tail⟩ := List.pairwise_cons.mp ascending
    unfold insert
    split
    · rename_i below
      refine List.pairwise_cons.mpr ⟨?_, ascending⟩
      intro binding member
      rcases List.mem_cons.mp member with rfl | member
      · exact below
      · exact String.lt_trans below (above binding member)
    · split
      · rename_i same
        refine List.pairwise_cons.mpr ⟨?_, tail⟩
        intro binding member
        rw [same]
        exact above binding member
      · rename_i notBelow different
        refine List.pairwise_cons.mpr ⟨?_, ih tail⟩
        intro binding member
        rcases mem_insert member with rfl | member
        · exact Std.lt_of_le_of_ne notBelow (Ne.symm different)
        · exact above binding member

theorem ascending_ofBindings (bindings : List (String × α)) : Ascending (ofBindings bindings) := by
  apply ofBindings_induction
  · exact List.Pairwise.nil
  · exact fun binding _ entries ascending => ascending_insert binding.1 binding.2 ascending

theorem get?_insert (key other : String) (value : α) (entries : Entries α) :
    get? other (insert key value entries) =
      if other = key then some value else get? other entries := by
  induction entries with
  | nil => rfl
  | cons head entries ih =>
    unfold insert
    split
    · rfl
    · split
      · rename_i same
        simp only [get?, same]
        split <;> rfl
      · rename_i different
        simp only [get?, ih]
        split
        · rename_i found
          rw [if_neg fun h => different (h.symm.trans found)]
        · rfl

theorem get?_foldl_insert (key : String) (bindings : List (String × α)) (entries : Entries α) :
    get? key (bindings.foldl (fun entries binding => insert binding.1 binding.2 entries) entries) =
      (bindings.reverse.lookup key).or (get? key entries) := by
  induction bindings generalizing entries with
  | nil => rfl
  | cons binding bindings ih =>
    obtain ⟨k, v⟩ := binding
    simp only [List.foldl_cons, ih, get?_insert, List.reverse_cons, List.lookup_append,
      Option.or_assoc, List.lookup_cons, List.lookup_nil]
    by_cases same : key = k
    · simp [same]
    · simp [same, beq_eq_false_iff_ne.mpr same]

theorem collects_ofBindings (bindings : List (String × α)) :
    Collects bindings (ofBindings bindings) := by
  refine ⟨ascending_ofBindings bindings, ?_⟩
  intro key
  rw [ofBindings, get?_foldl_insert, get?, Option.or_none]

theorem get?_eq_none {key : String} {entries : Entries α}
    (above : ∀ binding ∈ entries, key < binding.1) : get? key entries = none := by
  induction entries with
  | nil => rfl
  | cons head entries ih =>
    have first : key < head.1 := above head List.mem_cons_self
    have different : key ≠ head.1 := fun same => String.lt_irrefl key (same ▸ first)
    rw [get?, if_neg different]
    exact ih fun binding member => above binding (List.mem_cons_of_mem head member)

theorem Ascending.collects {entries : Entries α} (ascending : Ascending entries) :
    Collects entries entries := by
  refine ⟨ascending, ?_⟩
  intro key
  induction entries with
  | nil => rfl
  | cons head entries ih =>
    obtain ⟨k, v⟩ := head
    obtain ⟨above, tail⟩ := List.pairwise_cons.mp ascending
    rw [List.reverse_cons, List.lookup_append, ← ih tail, get?]
    by_cases same : key = k
    · rw [if_pos same, get?_eq_none (by rw [same]; exact above)]
      simp [same]
    · rw [if_neg same]
      simp [List.lookup_cons, beq_eq_false_iff_ne.mpr same]

theorem get?_eq_none_of_lt_head {key : String} {head : String × α} {entries : Entries α}
    (ascending : Ascending (head :: entries)) (below : key < head.1) :
    get? key (head :: entries) = none := by
  apply get?_eq_none
  intro binding member
  rcases List.mem_cons.mp member with rfl | member
  · exact below
  · exact String.lt_trans below ((List.pairwise_cons.mp ascending).1 binding member)

theorem not_lt_of_get?_eq {head head' : String × α} {entries others : Entries α}
    (ascending : Ascending (head' :: others))
    (same : ∀ key, get? key (head :: entries) = get? key (head' :: others)) :
    ¬ head.1 < head'.1 := by
  intro below
  have missing := get?_eq_none_of_lt_head ascending below
  have present : get? head.1 (head :: entries) = some head.2 := by simp [get?]
  rw [same, missing] at present
  cases present

theorem Ascending.ext {entries others : Entries α} (ascending : Ascending entries)
    (ascending' : Ascending others) (same : ∀ key, get? key entries = get? key others) :
    entries = others := by
  induction entries generalizing others with
  | nil =>
    cases others with
    | nil => rfl
    | cons head others => simpa [get?] using same head.1
  | cons head entries ih =>
    cases others with
    | nil => simpa [get?] using same head.1
    | cons head' others =>
      obtain ⟨above, tail⟩ := List.pairwise_cons.mp ascending
      obtain ⟨above', tail'⟩ := List.pairwise_cons.mp ascending'
      have notBelow := not_lt_of_get?_eq ascending' same
      have notAbove := not_lt_of_get?_eq ascending fun key => (same key).symm
      have keys : head.1 = head'.1 :=
        Decidable.byContradiction fun different => notBelow (Std.lt_of_le_of_ne notAbove different)
      have values : head.2 = head'.2 := by simpa [get?, keys] using same head.1
      have tails : entries = others := by
        refine ih tail tail' ?_
        intro key
        by_cases first : key = head.1
        · rw [first, get?_eq_none above, keys, get?_eq_none above']
        · have rest := same key
          rw [get?, if_neg first, get?, if_neg (keys ▸ first)] at rest
          exact rest
      rw [tails, Prod.ext keys values]

theorem Collects.eq_ofBindings {bindings : List (String × α)} {entries : Entries α}
    (collects : Collects bindings entries) : entries = ofBindings bindings := by
  have built := collects_ofBindings bindings
  refine collects.ascending.ext built.ascending ?_
  intro key
  rw [collects.last, built.last]

end Entries

end Descent
