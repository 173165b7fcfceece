import Descent.Proofs.Repetition

/-!
`Takes` counts the characters that every success takes off the front, and `AgreeBelow` says that two
parsers come to the same end on short inputs. A step that takes characters raises the bound below which
what follows it has to agree.
-/

namespace Descent.Parser

variable {α β γ : Type}

/-- Every success takes at least `count` characters off the front and leaves the others. -/
def Takes (count : Nat) (p : Parser α) : Prop :=
  ∀ s r, p.run s = .ok r → ∃ taken, s = taken ++ r.rest ∧ count ≤ taken.length

def Refuses (p : Parser α) (s : List Char) : Prop := ∃ error, p.run s = .fail error

/-- On inputs shorter than `bound` the runs are the same, and they end. -/
def AgreeBelow (bound : Nat) (p q : Parser α) : Prop :=
  ∀ s, s.length < bound → p.run s = q.run s ∧ p.run s ≠ .stalled

theorem run_many1_eq_bind (p : Parser α) :
    (many1 p).run = (p.bind fun first => (many p).map (first :: ·)).run := by
  funext s
  simp only [many1, run_step, run_bind, run_map, many]
  congr 1
  funext r
  exact repeatFrom_found p r.rest [r.value] r.rest

theorem refuses_iff_not_ok {p : Parser α} {s : List Char} (ends : p.run s ≠ .stalled) :
    Refuses p s ↔ ¬∃ r, p.run s = .ok r := by
  constructor
  · rintro ⟨error, failed⟩ ⟨r, ok⟩
    rw [failed] at ok
    cases ok
  · intro never
    cases ran : p.run s with
    | ok r => exact absurd ⟨r, ran⟩ never
    | fail error => exact ⟨error, ran⟩
    | stalled => exact absurd ran ends

theorem Refuses.run_orElse {p : Parser α} {s : List Char} (refuses : Refuses p s) (q : Parser α) :
    (p.orElse q).run s = q.run s := by
  obtain ⟨error, failed⟩ := refuses
  rw [Parser.run_orElse, failed]
  rfl

theorem Refuses.map {p : Parser α} {s : List Char} (refuses : Refuses p s) (f : α → β) :
    Refuses (p.map f) s := by
  obtain ⟨error, failed⟩ := refuses
  exact ⟨error, by rw [run_map, failed]; rfl⟩

theorem Refuses.bind {p : Parser α} {s : List Char} (refuses : Refuses p s) (f : α → Parser β) :
    Refuses (p.bind f) s := by
  obtain ⟨error, failed⟩ := refuses
  exact ⟨error, by rw [run_bind, failed]; rfl⟩

theorem Refuses.keepLeft {p : Parser α} {s : List Char} (refuses : Refuses p s) (q : Parser β) :
    Refuses (p.keepLeft q) s := by
  rw [keepLeft_eq_bind]
  exact refuses.bind _

theorem Refuses.orElse {p q : Parser α} {s : List Char} (left : Refuses p s) (right : Refuses q s) :
    Refuses (p.orElse q) s := by
  rw [Refuses, left.run_orElse]
  exact right

theorem run_choice_of_ok (description : String) {front back : List (Parser α)} {p : Parser α}
    {s : List Char} {r : Parsed α} (refuse : ∀ q ∈ front, Refuses q s) (ok : p.run s = .ok r) :
    (choice description (front ++ p :: back)).run s = .ok r := by
  induction front with
  | nil =>
      rw [List.nil_append, choice_cons, run_orElse, ok]
      rfl
  | cons q front ih =>
      have first : Refuses q s := refuse q List.mem_cons_self
      have others : ∀ q ∈ front, Refuses q s := fun q member =>
        refuse q (List.mem_cons_of_mem _ member)
      rw [List.cons_append, choice_cons, first.run_orElse]
      exact ih others

theorem exists_of_run_choice {description : String} {alternatives : List (Parser α)}
    {s : List Char} {r : Parsed α} (ok : (choice description alternatives).run s = .ok r) :
    ∃ p ∈ alternatives, p.run s = .ok r := by
  induction alternatives with
  | nil => cases ok
  | cons p alternatives ih =>
      rw [choice_cons, run_orElse, Outcome.recover_eq_ok_iff] at ok
      rcases ok with ok | ⟨_, _, ok⟩
      · exact ⟨p, List.mem_cons_self, ok⟩
      · obtain ⟨q, member, ok⟩ := ih ok
        exact ⟨q, List.mem_cons_of_mem p member, ok⟩

theorem Takes.mono {fewer more : Nat} {p : Parser α} (takes : Takes more p) (le : fewer ≤ more) :
    Takes fewer p := by
  intro s r ok
  obtain ⟨taken, split, enough⟩ := takes s r ok
  exact ⟨taken, split, Nat.le_trans le enough⟩

theorem Takes.zero {count : Nat} {p : Parser α} (takes : Takes count p) : Takes 0 p :=
  takes.mono (Nat.zero_le count)

theorem Takes.of_run_eq {count : Nat} {p q : Parser α} (same : p.run = q.run)
    (takes : Takes count q) : Takes count p := by
  intro s r ok
  rw [same] at ok
  exact takes s r ok

theorem Takes.shorter {p : Parser α} {s : List Char} {r : Parsed α} {count : Nat}
    (takes : Takes count p) (ok : p.run s = .ok r) : r.rest.length + count ≤ s.length := by
  obtain ⟨taken, split, enough⟩ := takes s r ok
  have total := congrArg List.length split
  rw [List.length_append] at total
  omega

theorem Takes.consumes {p : Parser α} (takes : Takes 1 p) (s : List Char) (r : Parsed α)
    (ok : p.run s = .ok r) : r.rest.length < s.length := takes.shorter ok

theorem takes_always (value : α) : Takes 0 (always value) := by
  intro s r ok
  cases ok
  exact ⟨[], rfl, Nat.le_refl 0⟩

theorem takes_never (count : Nat) (error : Mismatch) : Takes count (never error : Parser α) := by
  intro s r ok
  cases ok

theorem takes_anyChar : Takes 1 anyChar := by
  intro s r ok
  cases s with
  | nil => cases ok
  | cons c s =>
      cases ok
      exact ⟨[c], rfl, Nat.le_refl 1⟩

theorem takes_nothing : Takes 0 nothing := by
  intro s r ok
  cases ok
  exact ⟨[], rfl, Nat.le_refl 0⟩

theorem takes_endOfInput : Takes 0 endOfInput := by
  intro s r ok
  cases s with
  | nil =>
      cases ok
      exact ⟨[], rfl, Nat.le_refl 0⟩
  | cons c s => cases ok

theorem Takes.bind {first later : Nat} {p : Parser α} {f : α → Parser β} (takes : Takes first p)
    (following : ∀ a, Takes later (f a)) : Takes (first + later) (p.bind f) := by
  intro s r ok
  rw [run_bind, Outcome.bind_eq_ok_iff] at ok
  obtain ⟨q, readFirst, readLater⟩ := ok
  obtain ⟨front, split, enough⟩ := takes s q readFirst
  obtain ⟨back, again, more⟩ := following q.value q.rest r readLater
  refine ⟨front ++ back, ?_, ?_⟩
  · rw [List.append_assoc, ← again, ← split]
  · rw [List.length_append]
    exact Nat.add_le_add enough more

theorem Takes.orElse {count : Nat} {p q : Parser α} (left : Takes count p) (right : Takes count q) :
    Takes count (p.orElse q) := by
  intro s r ok
  rw [run_orElse, Outcome.recover_eq_ok_iff] at ok
  rcases ok with ok | ⟨_, _, ok⟩
  · exact left s r ok
  · exact right s r ok

theorem Takes.map {count : Nat} {p : Parser α} (takes : Takes count p) (f : α → β) :
    Takes count (p.map f) := by
  rw [map_eq_bind]
  exact takes.bind fun a => takes_always (f a)

theorem Takes.replace {count : Nat} {p : Parser α} (takes : Takes count p) (value : β) :
    Takes count (p.replace value) := by
  rw [replace_eq_map]
  exact takes.map fun _ => value

theorem Takes.keepRight {first later : Nat} {p : Parser α} {q : Parser β} (takes : Takes first p)
    (following : Takes later q) : Takes (first + later) (p.keepRight q) := by
  rw [keepRight_eq_bind]
  exact takes.bind fun _ => following

theorem Takes.keepLeft {first later : Nat} {p : Parser α} {q : Parser β} (takes : Takes first p)
    (following : Takes later q) : Takes (first + later) (p.keepLeft q) := by
  rw [keepLeft_eq_bind]
  exact takes.bind fun a => following.map fun _ => a

theorem Takes.pair {first later : Nat} {p : Parser α} {q : Parser β} (takes : Takes first p)
    (following : Takes later q) : Takes (first + later) (p.pair q) :=
  takes.bind fun _ => following.map _

theorem Takes.label {count : Nat} {p : Parser α} (takes : Takes count p) (name : String) :
    Takes count (p.label name) := by
  intro s r ok
  rw [run_label, Outcome.mapError_eq_ok_iff] at ok
  exact takes s r ok

theorem Takes.satisfy {count : Nat} {p : Parser α} (takes : Takes count p) (accepts : α → Bool)
    (error : α → Mismatch) : Takes count (p.satisfy accepts error) := by
  have judged : ∀ a, Takes 0 (if accepts a then always a else never (error a)) := by
    intro a
    split
    · exact takes_always a
    · exact takes_never 0 _
  exact takes.bind judged

theorem Takes.optional {count : Nat} {p : Parser α} (takes : Takes count p) (default : α) :
    Takes 0 (p.optional default) :=
  takes.zero.orElse (takes_always default)

theorem Takes.repeats {count : Nat} {p : Parser α} (takes : Takes count p) {s t : List Char}
    {values : List α} (loop : Repeats p s values t) : ∃ taken, s = taken ++ t := by
  induction loop with
  | done stop => exact ⟨[], rfl⟩
  | more found loop ih =>
      obtain ⟨front, split, _⟩ := takes _ _ found
      obtain ⟨back, again⟩ := ih
      exact ⟨front ++ back, by rw [List.append_assoc, ← again, ← split]⟩

theorem Takes.many {count : Nat} {p : Parser α} (takes : Takes count p) : Takes 0 (many p) := by
  intro s r ok
  obtain ⟨taken, split⟩ := takes.repeats (repeats_of_run_many ok)
  exact ⟨taken, split, Nat.zero_le _⟩

theorem Takes.many1 {count : Nat} {p : Parser α} (takes : Takes count p) :
    Takes count (many1 p) :=
  .of_run_eq (run_many1_eq_bind p)
    (takes.bind fun _ => takes.many.map _)

theorem Takes.sepBy1 {each mark : Nat} {p : Parser α} {separator : Parser β} (takes : Takes each p)
    (between : Takes mark separator) : Takes each (sepBy1 p separator) :=
  takes.bind fun _ => (between.keepRight takes).many.map _

theorem Takes.sepBy {each mark : Nat} {p : Parser α} {separator : Parser β} (takes : Takes each p)
    (between : Takes mark separator) : Takes 0 (sepBy p separator) :=
  (takes.sepBy1 between).optional []

theorem Takes.between {first count last : Nat} {opening : Parser α} {closing : Parser β}
    {p : Parser γ} (front : Takes first opening) (takes : Takes count p)
    (back : Takes last closing) : Takes (first + count + last) (between opening closing p) :=
  (front.keepRight takes).keepLeft back

theorem takes_sequence_nil : Takes 0 (sequence ([] : List (Parser α))) := takes_always []

theorem Takes.sequence_cons {first later : Nat} {p : Parser α} {ps : List (Parser α)}
    (takes : Takes first p) (following : Takes later (sequence ps)) :
    Takes (first + later) (sequence (p :: ps)) :=
  takes.bind fun _ => following.map _

theorem Takes.sequence {count : Nat} {ps : List (Parser α)} (each : ∀ p ∈ ps, Takes count p) :
    Takes 0 (sequence ps) := by
  induction ps with
  | nil => exact takes_sequence_nil
  | cons p ps ih =>
      have head := (each p List.mem_cons_self).zero
      exact head.sequence_cons (ih fun q member => each q (List.mem_cons_of_mem p member))

theorem Takes.choice {count : Nat} {ps : List (Parser α)} (description : String)
    (each : ∀ p ∈ ps, Takes count p) : Takes count (choice description ps) := by
  intro s r ok
  obtain ⟨p, member, ok⟩ := exists_of_run_choice ok
  exact each p member s r ok

theorem AgreeBelow.mono {less more : Nat} {p q : Parser α} (agree : AgreeBelow more p q)
    (le : less ≤ more) : AgreeBelow less p q := by
  intro s short
  exact agree s (Nat.lt_of_lt_of_le short le)

theorem AgreeBelow.of_run_eq {bound : Nat} {p p' q q' : Parser α} (left : p.run = p'.run)
    (right : q.run = q'.run) (agree : AgreeBelow bound p' q') : AgreeBelow bound p q := by
  intro s short
  rw [left, right]
  exact agree s short

theorem AgreeBelow.symm {bound : Nat} {p q : Parser α} (agree : AgreeBelow bound p q) :
    AgreeBelow bound q p := by
  intro s short
  obtain ⟨same, ends⟩ := agree s short
  exact ⟨same.symm, same ▸ ends⟩

theorem AgreeBelow.trans {bound : Nat} {p q t : Parser α} (first : AgreeBelow bound p q)
    (second : AgreeBelow bound q t) : AgreeBelow bound p t := by
  intro s short
  obtain ⟨same, ends⟩ := first s short
  exact ⟨same.trans (second s short).1, ends⟩

theorem agree_always (bound : Nat) (value : α) :
    AgreeBelow bound (always value) (always value) := by
  intro s short
  exact ⟨rfl, by simp⟩

theorem agree_never (bound : Nat) (error : Mismatch) :
    AgreeBelow bound (never error : Parser α) (never error) := by
  intro s short
  exact ⟨rfl, by simp⟩

theorem agree_anyChar (bound : Nat) : AgreeBelow bound anyChar anyChar := by
  intro s short
  cases s <;> exact ⟨rfl, by simp⟩

theorem agree_nothing (bound : Nat) : AgreeBelow bound nothing nothing := by
  intro s short
  exact ⟨rfl, by simp⟩

/-- What the first parser takes, the second does not have to care for. -/
theorem AgreeBelow.bind_beyond {bound count : Nat} {p p' : Parser α} {f f' : α → Parser β}
    (takes : Takes count p) (agree : AgreeBelow (bound + count) p p')
    (following : ∀ a, AgreeBelow bound (f a) (f' a)) :
    AgreeBelow (bound + count) (p.bind f) (p'.bind f') := by
  intro s short
  obtain ⟨same, ends⟩ := agree s short
  rw [run_bind, run_bind, ← same]
  cases h : p.run s with
  | ok r =>
      have left := takes.shorter h
      exact following r.value r.rest (by omega)
  | fail error => exact ⟨rfl, by simp [Outcome.bind]⟩
  | stalled => exact absurd h ends

theorem AgreeBelow.bind {bound count : Nat} {p p' : Parser α} {f f' : α → Parser β}
    (takes : Takes count p) (agree : AgreeBelow bound p p')
    (following : ∀ a, AgreeBelow bound (f a) (f' a)) :
    AgreeBelow bound (p.bind f) (p'.bind f') :=
  AgreeBelow.bind_beyond takes.zero agree following

theorem AgreeBelow.orElse {bound : Nat} {p p' q q' : Parser α} (left : AgreeBelow bound p p')
    (right : AgreeBelow bound q q') : AgreeBelow bound (p.orElse q) (p'.orElse q') := by
  intro s short
  obtain ⟨same, ends⟩ := left s short
  rw [run_orElse, run_orElse, ← same]
  cases h : p.run s with
  | ok r => exact ⟨rfl, by simp [Outcome.recover]⟩
  | fail error => exact right s short
  | stalled => exact absurd h ends

theorem AgreeBelow.map {bound : Nat} {p p' : Parser α} (agree : AgreeBelow bound p p')
    (f : α → β) : AgreeBelow bound (p.map f) (p'.map f) := by
  intro s short
  obtain ⟨same, ends⟩ := agree s short
  rw [run_map, run_map, ← same]
  refine ⟨rfl, ?_⟩
  cases h : p.run s with
  | ok r => simp [Outcome.map]
  | fail error => simp [Outcome.map]
  | stalled => exact absurd h ends

theorem AgreeBelow.replace {bound : Nat} {p p' : Parser α} (agree : AgreeBelow bound p p')
    (value : β) : AgreeBelow bound (p.replace value) (p'.replace value) := by
  rw [replace_eq_map, replace_eq_map]
  exact agree.map fun _ => value

theorem AgreeBelow.keepRight_beyond {bound count : Nat} {p p' : Parser α} {q q' : Parser β}
    (takes : Takes count p) (agree : AgreeBelow (bound + count) p p')
    (following : AgreeBelow bound q q') :
    AgreeBelow (bound + count) (p.keepRight q) (p'.keepRight q') := by
  rw [keepRight_eq_bind, keepRight_eq_bind]
  exact AgreeBelow.bind_beyond takes agree fun _ => following

theorem AgreeBelow.keepRight {bound count : Nat} {p p' : Parser α} {q q' : Parser β}
    (takes : Takes count p) (agree : AgreeBelow bound p p') (following : AgreeBelow bound q q') :
    AgreeBelow bound (p.keepRight q) (p'.keepRight q') :=
  AgreeBelow.keepRight_beyond takes.zero agree following

theorem AgreeBelow.keepLeft {bound count : Nat} {p p' : Parser α} {q q' : Parser β}
    (takes : Takes count p) (agree : AgreeBelow bound p p') (following : AgreeBelow bound q q') :
    AgreeBelow bound (p.keepLeft q) (p'.keepLeft q') := by
  rw [keepLeft_eq_bind, keepLeft_eq_bind]
  exact AgreeBelow.bind takes agree fun a => following.map fun _ => a

theorem AgreeBelow.satisfy {bound count : Nat} {p p' : Parser α} (takes : Takes count p)
    (agree : AgreeBelow bound p p') (accepts : α → Bool) (error : α → Mismatch) :
    AgreeBelow bound (p.satisfy accepts error) (p'.satisfy accepts error) := by
  refine AgreeBelow.bind takes agree ?_
  intro value
  split
  · exact agree_always bound value
  · exact agree_never bound _

theorem AgreeBelow.optional {bound : Nat} {p p' : Parser α} (agree : AgreeBelow bound p p')
    (default : α) : AgreeBelow bound (p.optional default) (p'.optional default) :=
  agree.orElse (agree_always bound default)

/-- The two loops go round together. -/
theorem agree_repeatFrom {bound : Nat} {p p' : Parser α} (takes : Takes 1 p)
    (agree : AgreeBelow bound p p') (budget : List Char) (found : List α) (s : List Char)
    (short : s.length < bound) (enough : s.length ≤ budget.length) :
    repeatFrom p budget found s = repeatFrom p' budget found s ∧
      repeatFrom p budget found s ≠ .stalled := by
  induction budget generalizing found s with
  | nil =>
      obtain ⟨same, ends⟩ := agree s short
      unfold repeatFrom
      rw [← same]
      cases h : p.run s with
      | ok r =>
          have left := takes.shorter h
          simp only [List.length_nil] at enough
          omega
      | fail error => exact ⟨rfl, by simp⟩
      | stalled => exact absurd h ends
  | cons cell budget ih =>
      obtain ⟨same, ends⟩ := agree s short
      unfold repeatFrom
      rw [← same]
      cases h : p.run s with
      | ok r =>
          have left := takes.shorter h
          simp only [List.length_cons] at enough
          exact ih (r.value :: found) r.rest (by omega) (by omega)
      | fail error => exact ⟨rfl, by simp⟩
      | stalled => exact absurd h ends

theorem AgreeBelow.many {bound : Nat} {p p' : Parser α} (takes : Takes 1 p)
    (agree : AgreeBelow bound p p') : AgreeBelow bound (many p) (many p') := by
  intro s short
  exact agree_repeatFrom takes agree s [] s short (Nat.le_refl _)

/-- A loop over `p` takes a character in every round, so it ends on every input, and any budget that
covers the input gives its result. -/
structure LoopEnds (p : Parser α) : Prop where
  takes : Takes 1 p
  ends : ∀ s, (many p).run s ≠ .stalled
  budget : ∀ budget s, s.length ≤ budget.length → repeatFrom p budget [] s = (many p).run s

theorem Takes.loopEnds {p : Parser α} (takes : Takes 1 p) (ends : ∀ bound, AgreeBelow bound p p) :
    LoopEnds p := by
  refine ⟨takes, ?_, ?_⟩
  · intro s
    exact (AgreeBelow.many takes (ends (s.length + 1)) s (Nat.lt_succ_self _)).2
  · intro budget s enough
    exact repeatFrom_budget takes.consumes [] enough (Nat.le_refl _)

theorem AgreeBelow.many1 {bound : Nat} {p p' : Parser α} (takes : Takes 1 p)
    (agree : AgreeBelow bound p p') : AgreeBelow bound (many1 p) (many1 p') :=
  .of_run_eq (run_many1_eq_bind p) (run_many1_eq_bind p')
    (AgreeBelow.bind takes agree fun _ => (AgreeBelow.many takes agree).map _)

theorem AgreeBelow.sepBy {bound count : Nat} {p p' : Parser α} {separator : Parser β}
    (takes : Takes count p) (agree : AgreeBelow bound p p') (between : Takes 1 separator)
    (same : AgreeBelow bound separator separator) :
    AgreeBelow bound (sepBy p separator) (sepBy p' separator) := by
  have following : Takes 1 (separator.keepRight p) := between.keepRight takes.zero
  have rounds : AgreeBelow bound (separator.keepRight p) (separator.keepRight p') :=
    AgreeBelow.keepRight between same agree
  refine AgreeBelow.optional ?_ []
  refine AgreeBelow.bind takes agree ?_
  intro first
  exact (AgreeBelow.many following rounds).map _

theorem AgreeBelow.between {bound first count : Nat} {opening : Parser α} {closing : Parser β}
    {p p' : Parser γ} (front : Takes first opening)
    (opens : AgreeBelow (bound + first) opening opening) (takes : Takes count p)
    (agree : AgreeBelow bound p p') (closes : AgreeBelow (bound + first) closing closing) :
    AgreeBelow (bound + first) (between opening closing p) (between opening closing p') :=
  AgreeBelow.keepLeft (front.keepRight takes) (AgreeBelow.keepRight_beyond front opens agree) closes

theorem agree_sequence_nil (bound : Nat) :
    AgreeBelow bound (sequence ([] : List (Parser α))) (sequence []) := agree_always bound []

theorem AgreeBelow.sequence_cons {bound count : Nat} {p p' : Parser α} {ps ps' : List (Parser α)}
    (takes : Takes count p) (agree : AgreeBelow bound p p')
    (following : AgreeBelow bound (sequence ps) (sequence ps')) :
    AgreeBelow bound (sequence (p :: ps)) (sequence (p' :: ps')) :=
  AgreeBelow.bind takes agree fun _ => following.map _

/-- Comes to no end on an input of `bound` characters or more, and nothing recovers from that. -/
def below (bound : Nat) (p : Parser α) : Parser α :=
  step fun s => if s.length < bound then p.run s else .stalled

theorem agree_below {bound : Nat} {p : Parser α} (ends : AgreeBelow bound p p) :
    AgreeBelow bound p (p.below bound) := by
  intro s short
  refine ⟨?_, (ends s short).2⟩
  simp only [below, run_step, if_pos short]

theorem Takes.below {count : Nat} {p : Parser α} (takes : Takes count p) (bound : Nat) :
    Takes count (p.below bound) := by
  intro s r ok
  simp only [Parser.below, run_step] at ok
  split at ok
  · exact takes s r ok
  · cases ok

end Descent.Parser
