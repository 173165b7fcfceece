import Mathlib.Data.List.Forall2
import Descent.Proofs.Progress

/-!
The forms `always` and `never` settle work early, when a parser is built, but no operation gives another
result for it.
-/

namespace Descent.Parser

variable {α β γ : Type}

/-- The second parser is built as the first one is, with operands that run alike in the place of some
of them. The form of an operand is free: `same` has `step p.run` stand for `p`. -/
inductive Alike : {α : Type} → Parser α → Parser α → Prop
  | same {α : Type} {p p' : Parser α} (runs : ∀ s, p.run s = p'.run s) : Alike p p'
  | bind {α β : Type} {p p' : Parser α} {f f' : α → Parser β} (first : Alike p p')
      (later : ∀ a, Alike (f a) (f' a)) : Alike (p.bind f) (p'.bind f')
  | orElse {α : Type} {p p' q q' : Parser α} (left : Alike p p') (right : Alike q q') :
      Alike (p.orElse q) (p'.orElse q')
  | map {α β : Type} {p p' : Parser α} (f : α → β) (operand : Alike p p') :
      Alike (p.map f) (p'.map f)
  | replace {α β : Type} {p p' : Parser α} (value : β) (operand : Alike p p') :
      Alike (p.replace value) (p'.replace value)
  | keepRight {α β : Type} {p p' : Parser α} {q q' : Parser β} (left : Alike p p')
      (right : Alike q q') : Alike (p.keepRight q) (p'.keepRight q')
  | keepLeft {α β : Type} {p p' : Parser α} {q q' : Parser β} (left : Alike p p')
      (right : Alike q q') : Alike (p.keepLeft q) (p'.keepLeft q')
  | pair {α β : Type} {p p' : Parser α} {q q' : Parser β} (left : Alike p p')
      (right : Alike q q') : Alike (p.pair q) (p'.pair q')
  | label {α : Type} {p p' : Parser α} (name : String) (operand : Alike p p') :
      Alike (p.label name) (p'.label name)
  | satisfy {α : Type} {p p' : Parser α} (accepts : α → Bool) (error : α → Mismatch)
      (operand : Alike p p') : Alike (p.satisfy accepts error) (p'.satisfy accepts error)
  | choice {α : Type} {ps ps' : List (Parser α)} (description : String)
      (length : ps.length = ps'.length)
      (each : ∀ i (h : i < ps.length) (h' : i < ps'.length), Alike (ps.get ⟨i, h⟩) (ps'.get ⟨i, h'⟩)) :
      Alike (choice description ps) (choice description ps')
  | sequence {α : Type} {ps ps' : List (Parser α)} (length : ps.length = ps'.length)
      (each : ∀ i (h : i < ps.length) (h' : i < ps'.length), Alike (ps.get ⟨i, h⟩) (ps'.get ⟨i, h'⟩)) :
      Alike (sequence ps) (sequence ps')
  | ignore {α : Type} {p p' : Parser α} (operand : Alike p p') : Alike p.ignore p'.ignore
  | optional {α : Type} {p p' : Parser α} (default : α) (operand : Alike p p') :
      Alike (p.optional default) (p'.optional default)
  | many {α : Type} {p p' : Parser α} (operand : Alike p p') : Alike (many p) (many p')
  | many1 {α : Type} {p p' : Parser α} (operand : Alike p p') : Alike (many1 p) (many1 p')
  | sepBy1 {α β : Type} {p p' : Parser α} {q q' : Parser β} (operand : Alike p p')
      (separator : Alike q q') : Alike (sepBy1 p q) (sepBy1 p' q')
  | sepBy {α β : Type} {p p' : Parser α} {q q' : Parser β} (operand : Alike p p')
      (separator : Alike q q') : Alike (sepBy p q) (sepBy p' q')
  | between {α β γ : Type} {p p' : Parser α} {q q' : Parser β} {t t' : Parser γ}
      (opening : Alike p p') (closing : Alike q q') (operand : Alike t t') :
      Alike (between p q t) (between p' q' t')

/-- The two come to the same on every input, or both fail, each for reasons of its own. -/
def SameUpToError (p q : Parser α) : Prop :=
  ∀ s, p.run s = q.run s ∨ (Refuses p s ∧ Refuses q s)

theorem SameUpToError.of_run_eq {p q : Parser α} (same : p.run = q.run) : SameUpToError p q :=
  fun s => Or.inl (congrFun same s)

theorem SameUpToError.symm {p q : Parser α} (same : SameUpToError p q) : SameUpToError q p :=
  fun s => (same s).imp Eq.symm And.symm

theorem sameUpToError_label (p : Parser α) (name : String) : SameUpToError (p.label name) p := by
  intro s
  simp only [Refuses, run_label]
  cases p.run s with
  | ok r => exact Or.inl rfl
  | fail error => exact Or.inr ⟨⟨_, rfl⟩, error, rfl⟩
  | stalled => exact Or.inl rfl

theorem SameUpToError.bind {p p' : Parser α} {f f' : α → Parser β} (first : SameUpToError p p')
    (later : ∀ a, SameUpToError (f a) (f' a)) : SameUpToError (p.bind f) (p'.bind f') := by
  intro s
  simp only [Refuses, run_bind]
  rcases first s with same | ⟨⟨error, failed⟩, error', failed'⟩
  · rw [same]
    cases p'.run s with
    | ok r => exact later r.value r.rest
    | fail error => exact Or.inl rfl
    | stalled => exact Or.inl rfl
  · rw [failed, failed']
    exact Or.inr ⟨⟨error, rfl⟩, error', rfl⟩

theorem SameUpToError.keepRight {p p' : Parser α} {q q' : Parser β} (left : SameUpToError p p')
    (right : SameUpToError q q') : SameUpToError (p.keepRight q) (p'.keepRight q') := by
  rw [keepRight_eq_bind, keepRight_eq_bind]
  exact left.bind fun _ => right

theorem SameUpToError.run_orElse_eq {p p' : Parser α} (left : SameUpToError p p') (q : Parser α) :
    (p.orElse q).run = (p'.orElse q).run := by
  funext s
  rw [run_orElse, run_orElse]
  rcases left s with same | ⟨⟨error, failed⟩, error', failed'⟩
  · rw [same]
  · rw [failed, failed']
    rfl

theorem SameUpToError.repeatFrom_eq {p p' : Parser α} (same : SameUpToError p p')
    (budget : List Char) (found : List α) (s : List Char) :
    repeatFrom p budget found s = repeatFrom p' budget found s := by
  induction budget generalizing found s with
  | nil =>
      unfold repeatFrom
      rcases same s with same | ⟨⟨error, failed⟩, error', failed'⟩
      · rw [same]
      · rw [failed, failed']
  | cons cell budget ih =>
      unfold repeatFrom
      rcases same s with same | ⟨⟨error, failed⟩, error', failed'⟩
      · rw [same]
        cases p'.run s with
        | ok r => exact ih (r.value :: found) r.rest
        | fail error => rfl
        | stalled => rfl
      · rw [failed, failed']

theorem SameUpToError.many_eq {p p' : Parser α} (same : SameUpToError p p') : many p = many p' := by
  apply congrArg step
  funext s
  exact same.repeatFrom_eq s [] s

theorem bind_congr {p p' : Parser α} {f f' : α → Parser β} (first : p.run = p'.run)
    (later : ∀ a, (f a).run = (f' a).run) : (p.bind f).run = (p'.bind f').run := by
  funext s
  rw [run_bind, run_bind, first]
  congr 1
  funext r
  rw [later r.value]

theorem orElse_congr {p p' q q' : Parser α} (left : p.run = p'.run) (right : q.run = q'.run) :
    (p.orElse q).run = (p'.orElse q').run := by
  funext s
  rw [run_orElse, run_orElse, left, right]

theorem map_congr {p p' : Parser α} (same : p.run = p'.run) (f : α → β) :
    (p.map f).run = (p'.map f).run := by
  funext s
  rw [run_map, run_map, same]

theorem replace_congr {p p' : Parser α} (same : p.run = p'.run) (value : β) :
    (p.replace value).run = (p'.replace value).run := by
  funext s
  rw [run_replace, run_replace, same]

theorem keepRight_congr {p p' : Parser α} {q q' : Parser β} (left : p.run = p'.run)
    (right : q.run = q'.run) : (p.keepRight q).run = (p'.keepRight q').run := by
  funext s
  rw [run_keepRight, run_keepRight, left, right]

theorem keepLeft_congr {p p' : Parser α} {q q' : Parser β} (left : p.run = p'.run)
    (right : q.run = q'.run) : (p.keepLeft q).run = (p'.keepLeft q').run := by
  funext s
  rw [run_keepLeft, run_keepLeft, left, right]

theorem between_congr {p p' : Parser α} {q q' : Parser β} {t t' : Parser γ}
    (opening : p.run = p'.run) (closing : q.run = q'.run) (operand : t.run = t'.run) :
    (between p q t).run = (between p' q' t').run :=
  keepLeft_congr (keepRight_congr opening operand) closing

theorem pair_congr {p p' : Parser α} {q q' : Parser β} (left : p.run = p'.run)
    (right : q.run = q'.run) : (p.pair q).run = (p'.pair q').run :=
  bind_congr left fun _ => map_congr right _

theorem label_congr {p p' : Parser α} (same : p.run = p'.run) (name : String) :
    (p.label name).run = (p'.label name).run := by
  funext s
  rw [run_label, run_label, same]

theorem satisfy_congr {p p' : Parser α} (same : p.run = p'.run) (accepts : α → Bool)
    (error : α → Mismatch) :
    (p.satisfy accepts error).run = (p'.satisfy accepts error).run :=
  bind_congr same fun _ => rfl

theorem choice_congr (description : String) {ps ps' : List (Parser α)}
    (each : List.Forall₂ (fun p p' => p.run = p'.run) ps ps') :
    (choice description ps).run = (choice description ps').run := by
  induction each with
  | nil => rfl
  | cons head tail ih =>
      rw [choice_cons, choice_cons]
      exact orElse_congr head ih

theorem sequence_congr {ps ps' : List (Parser α)}
    (each : List.Forall₂ (fun p p' => p.run = p'.run) ps ps') :
    (sequence ps).run = (sequence ps').run := by
  induction each with
  | nil => rfl
  | cons head tail ih =>
      rw [sequence_cons, sequence_cons]
      exact bind_congr head fun x => map_congr ih _

theorem repeatFrom_congr {p p' : Parser α} (same : p.run = p'.run) (budget : List Char)
    (found : List α) (s : List Char) :
    repeatFrom p budget found s = repeatFrom p' budget found s :=
  (SameUpToError.of_run_eq same).repeatFrom_eq budget found s

theorem many_congr {p p' : Parser α} (same : p.run = p'.run) : (many p).run = (many p').run :=
  congrArg run (SameUpToError.of_run_eq same).many_eq

theorem many1_congr {p p' : Parser α} (same : p.run = p'.run) :
    (many1 p).run = (many1 p').run := by
  funext s
  simp only [many1, run_step, same]
  congr 1
  funext r
  exact repeatFrom_congr same r.rest [r.value] r.rest

theorem sepBy1_congr {p p' : Parser α} {q q' : Parser β} (same : p.run = p'.run)
    (separator : q.run = q'.run) : (sepBy1 p q).run = (sepBy1 p' q').run := by
  have following : (many (q.keepRight p)).run = (many (q'.keepRight p')).run :=
    many_congr (keepRight_congr separator same)
  exact bind_congr same fun first => map_congr following _

theorem SameUpToError.run_sepBy_eq {p p' : Parser α} (same : SameUpToError p p')
    (separator : Parser β) : (sepBy p separator).run = (sepBy p' separator).run := by
  have untouched : SameUpToError separator separator := .of_run_eq rfl
  have following := (untouched.keepRight same).many_eq
  have list : SameUpToError (sepBy1 p separator) (sepBy1 p' separator) := by
    rw [sepBy1, sepBy1, following]
    exact same.bind fun first => .of_run_eq rfl
  exact list.run_orElse_eq (always [])

theorem Repeats.of_run_eq {p p' : Parser α} (same : p.run = p'.run) {s t : List Char}
    {values : List α} (loop : Repeats p s values t) : Repeats p' s values t := by
  induction loop with
  | done stop => exact .done (same ▸ stop)
  | more found loop ih => exact .more (same ▸ found) ih

theorem run_eq_of_alike {p p' : Parser α} (alike : Alike p p') : p.run = p'.run := by
  induction alike with
  | same runs => exact funext runs
  | bind _ _ first later => exact bind_congr first later
  | orElse _ _ left right => exact orElse_congr left right
  | map f _ operand => exact map_congr operand f
  | replace value _ operand => exact replace_congr operand value
  | keepRight _ _ left right => exact keepRight_congr left right
  | keepLeft _ _ left right => exact keepLeft_congr left right
  | pair _ _ left right => exact pair_congr left right
  | label name _ operand => exact label_congr operand name
  | satisfy accepts error _ operand => exact satisfy_congr operand accepts error
  | choice description length _ each =>
      exact choice_congr description (List.forall₂_iff_get.mpr ⟨length, each⟩)
  | sequence length _ each => exact sequence_congr (List.forall₂_iff_get.mpr ⟨length, each⟩)
  | ignore _ operand => exact replace_congr operand ()
  | optional default _ operand => exact orElse_congr operand rfl
  | many _ operand => exact many_congr operand
  | many1 _ operand => exact many1_congr operand
  | sepBy1 _ _ operand separator => exact sepBy1_congr operand separator
  | sepBy _ _ operand separator => exact orElse_congr (sepBy1_congr operand separator) rfl
  | between _ _ _ opening closing operand => exact between_congr opening closing operand

/-- What a parser gives, alone, over a whole text or in a loop, does not depend on the form of any
operand it was built from. -/
theorem results_eq_of_alike {p p' : Parser α} (alike : Alike p p') :
    (∀ s, p.run s = p'.run s) ∧ (∀ s, p.parse s = p'.parse s) ∧
      ∀ s values t, Repeats p s values t ↔ Repeats p' s values t := by
  have same := run_eq_of_alike alike
  refine ⟨fun s => congrFun same s, ?_, ?_⟩
  · intro s
    rw [parse_eq, parse_eq, same]
  · intro s values t
    exact ⟨fun loop => loop.of_run_eq same, fun loop => loop.of_run_eq same.symm⟩

/-- A constant that masks the other alternative, and the same constant wrapped as a step. -/
theorem results_eq_of_wrapped_constant :
    Alike (choice "letter" [always 'a', anyChar]) (choice "letter" [step (always 'a').run, anyChar]) ∧
      (choice "letter" [always 'a', anyChar]).kind = .always ∧
      (choice "letter" [step (always 'a').run, anyChar]).kind = .step ∧
      (choice "letter" [always 'a', anyChar]).parse ['b'] =
        (choice "letter" [step (always 'a').run, anyChar]).parse ['b'] := by
  have alike : Alike (choice "letter" [always 'a', anyChar])
      (choice "letter" [step (always 'a').run, anyChar]) := by
    refine .choice "letter" rfl ?_
    intro i h h'
    match i, h, h' with
    | 0, _, _ => exact .same fun _ => rfl
    | 1, _, _ => exact .same fun _ => rfl
  exact ⟨alike, rfl, rfl, (results_eq_of_alike alike).2.1 ['b']⟩

end Descent.Parser
