import Descent.Proofs.Algebra

namespace Descent.Parser

variable {α β γ δ : Type}

theorem pair_bind (p : Parser α) (q : Parser β) (f : α × β → Parser γ) :
    (p.pair q).bind f = p.bind fun a => q.bind fun b => f (a, b) := by
  simp only [pair, bind_assoc, bind_map]

theorem pair_map (p : Parser α) (q : Parser β) (f : α → β → γ) :
    (p.pair q).map (fun both => f both.1 both.2) = p.bind fun a => q.map (f a) := by
  simp only [pair, map_bind, map_map]
  rfl

theorem map_pair (h : α → γ) (p : Parser α) (q : Parser β) :
    (p.map h).pair q = (p.pair q).map fun both => (h both.1, both.2) := by
  calc
    (p.map h).pair q = p.bind fun a => q.map fun b => (h a, b) := bind_map h p _
    _ = (p.pair q).map fun both => (h both.1, both.2) := (pair_map p q fun a b => (h a, b)).symm

theorem pair_assoc (p : Parser α) (q : Parser β) (r : Parser γ) :
    (p.pair q).pair r = (p.pair (q.pair r)).map fun t => ((t.1, t.2.1), t.2.2) := by
  calc
    (p.pair q).pair r = p.bind fun a => q.bind fun b => r.map fun c => ((a, b), c) :=
      pair_bind p q fun both => r.map fun c => (both, c)
    _ = p.bind fun a => (q.pair r).map fun t => ((a, t.1), t.2) := by
      congr 1
      funext a
      exact (pair_map q r fun b c => ((a, b), c)).symm
    _ = (p.pair (q.pair r)).map fun t => ((t.1, t.2.1), t.2.2) :=
      (pair_map p (q.pair r) fun a t => ((a, t.1), t.2)).symm

theorem keepLeft_eq_pair (p : Parser α) (q : Parser β) : p.keepLeft q = (p.pair q).map Prod.fst := by
  rw [keepLeft_eq_bind]
  exact (pair_map p q fun a _ => a).symm

theorem keepRight_eq_pair (p : Parser α) (q : Parser β) :
    p.keepRight q = (p.pair q).map Prod.snd := by
  calc
    p.keepRight q = p.bind fun _ => q.map id := by rw [keepRight_eq_bind, map_id]
    _ = (p.pair q).map Prod.snd := (pair_map p q fun _ b => b).symm

theorem keepRight_keepLeft (p : Parser α) (q : Parser β) (r : Parser γ) :
    (p.keepRight q).keepLeft r = p.keepRight (q.keepLeft r) := by
  simp only [keepLeft_eq_bind, keepRight_eq_bind, bind_assoc]

theorem keepLeft_keepLeft (p : Parser α) (q : Parser β) (r : Parser γ) :
    (p.keepLeft q).keepLeft r = p.keepLeft (q.keepLeft r) := by
  simp only [keepLeft_eq_bind, bind_assoc, bind_map, map_bind, map_map]
  rfl

theorem between_eq_pair (opening : Parser α) (closing : Parser β) (p : Parser γ) :
    between opening closing p = ((opening.pair p).pair closing).map fun t => t.1.2 := by
  calc
    between opening closing p = ((opening.keepRight p).pair closing).map Prod.fst :=
      keepLeft_eq_pair (opening.keepRight p) closing
    _ = ((((opening.pair p).pair closing).map fun t => (t.1.2, t.2))).map Prod.fst := by
      rw [keepRight_eq_pair, map_pair]
    _ = ((opening.pair p).pair closing).map fun t => t.1.2 := map_map _ _ _

/-- The operations that join two parsers are parts of a pair: keeping one value is taking that component,
putting a value in the place of another is applying a constant to it, and an enclosure is the middle of
three. How pairs are nested makes no difference but for the nesting of the values, and of three parsers
whose middle value is kept, either two may be joined first. Form, values, rests and failures agree. -/
theorem joins_are_parts_of_pairs (p : Parser α) (q : Parser β) (r : Parser γ) (value : δ) :
    p.keepLeft q = (p.pair q).map Prod.fst ∧
    p.keepRight q = (p.pair q).map Prod.snd ∧
    p.replace value = (p.map fun _ => value) ∧
    (p.pair q).pair r = ((p.pair (q.pair r)).map fun t => ((t.1, t.2.1), t.2.2)) ∧
    (p.keepRight q).keepLeft r = p.keepRight (q.keepLeft r) ∧
    between p r q = (((p.pair q).pair r).map fun t => t.1.2) :=
  ⟨keepLeft_eq_pair p q, keepRight_eq_pair p q, replace_eq_map p value, pair_assoc p q r,
    keepRight_keepLeft p q r, between_eq_pair p r q⟩

end Descent.Parser
