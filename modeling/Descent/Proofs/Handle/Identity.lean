import Descent.Proofs.Handle.Reading

/-!
Every mark is given out once, so what a construction builds is either new or one of the parsers that were
there, and `origin` says which.
-/

namespace Descent.Handle

variable {Γ : List Type} {α β γ : Type}

/-- A parser among those to which one was added, when it is known where that one came from. -/
def Variable.resolve : Variable (β :: Γ) α → Option (Variable Γ β) → Option (Variable Γ α)
  | .last, origin => origin
  | .earlier x, _ => some x

/-- The value of a parser that always succeeds. -/
def constant? (h : Handle α) : Option α :=
  match h.parser with
  | .always value => some value
  | _ => none

/-- The parser that a construction hands back. Three operations hand one back: an alternation whose
first operand never succeeds, and `keepRight` and `bind` behind an operand that always does. -/
def Construction.origin : {Γ : List Type} → {α : Type} → Construction Γ α → Store Handle Γ → Mark →
    Option (Variable Γ α)
  | _, _, given x, _, _ => some x
  | _, _, andThen first second, store, next =>
    let built := (first.build store).run next
    (second.origin (store.push built.1) built.2).bind fun x => x.resolve (first.origin store next)
  | _, _, bind x f, store, next =>
    (store.get x).constant?.bind fun value => (f value).origin store next
  | _, _, orElse x y, store, _ => if (store.get x).kind = .never then some y else none
  | _, _, keepRight x y, store, _ => if (store.get x).kind = .always then some y else none
  | _, _, _, _, _ => none

/-- Marks that were given out are not taken back. -/
def Grows (c : Build α) : Prop := ∀ next, next ≤ (c.run next).2

/-- A step that was built has a mark that was not given out before. -/
structure Fresh (c : Build (Handle α)) : Prop where
  grows : Grows c
  fresh : ∀ next mark, (c.run next).1.mark = some mark → next ≤ mark ∧ mark < (c.run next).2

theorem fresh_ofParser (p : Parser α) : Fresh (ofParser p) := by
  cases p with
  | always value => exact ⟨fun next => Nat.le_refl next, fun next mark marked => by cases marked⟩
  | never error => exact ⟨fun next => Nat.le_refl next, fun next mark marked => by cases marked⟩
  | step run =>
      constructor
      · intro next
        exact Nat.le_succ next
      · intro next mark marked
        cases marked
        exact ⟨Nat.le_refl next, Nat.lt_succ_self next⟩

theorem fresh_unmarked {h : Handle α} (unmarked : h.mark = none) :
    Fresh (pure h : Build (Handle α)) := by
  refine ⟨fun next => Nat.le_refl next, fun next mark marked => ?_⟩
  have same : h.mark = some mark := marked
  rw [unmarked] at same
  cases same

theorem fresh_always (value : α) : Fresh (pure (always value)) := fresh_unmarked rfl

theorem fresh_never (error : Mismatch) : Fresh (pure (never error : Handle α)) := fresh_unmarked rfl

theorem grows_pure (a : α) : Grows (pure a : Build α) := fun next => Nat.le_refl next

theorem Grows.andThen {first : Build α} {second : α → Build β} (grows : Grows first)
    (later : ∀ a, Grows (second a)) : Grows (first >>= second) :=
  fun next => Nat.le_trans (grows next) (later _ _)

/-- Of several constructions in a row, only the last one needs to make something new. -/
theorem Fresh.andThen {first : Build α} {second : α → Build (Handle β)} (grows : Grows first)
    (fresh : ∀ a, Fresh (second a)) : Fresh (first >>= second) := by
  refine ⟨grows.andThen fun a => (fresh a).grows, fun next mark marked => ?_⟩
  obtain ⟨low, high⟩ := (fresh (first.run next).1).fresh (first.run next).2 mark marked
  exact ⟨Nat.le_trans (grows next) low, high⟩

theorem Fresh.bind {h : Handle α} {f : α → Build (Handle β)} (fresh : ∀ a, Fresh (f a)) :
    Fresh (h.bind f) := by
  unfold Handle.bind
  split
  · exact fresh _
  · exact fresh_ofParser _

theorem grows_keepRight (h : Handle α) (next : Handle β) : Grows (h.keepRight next) := by
  unfold Handle.keepRight
  split
  · exact grows_pure next
  · exact (fresh_ofParser _).grows

/-- An alternative that was built for the purpose may be handed back as new. -/
theorem Fresh.orElse (h : Handle α) {other : Build (Handle α)} (fresh : Fresh other) :
    Fresh (other >>= h.orElse) := by
  unfold Handle.orElse
  split
  · exact fresh
  · exact .andThen fresh.grows fun _ => fresh_ofParser _

theorem fresh_map (f : α → β) (h : Handle α) : Fresh (h.map f) := fresh_ofParser _

theorem fresh_keepLeft (h : Handle α) (next : Handle β) : Fresh (h.keepLeft next) :=
  fresh_ofParser _

theorem fresh_pair (h : Handle α) (next : Handle β) : Fresh (h.pair next) :=
  .bind fun _ => fresh_map _ next

theorem fresh_satisfy (h : Handle α) (accepts : α → Bool) (error : α → Mismatch) :
    Fresh (h.satisfy accepts error) := by
  refine .bind fun value => fresh_unmarked ?_
  split
  · rfl
  · rfl

theorem fresh_choice (description : String) (hs : List (Handle α)) :
    Fresh (Handle.choice description hs) := by
  induction hs with
  | nil => exact fresh_never _
  | cons h hs ih => exact ih.orElse h

theorem fresh_sequence (hs : List (Handle α)) : Fresh (Handle.sequence hs) := by
  induction hs with
  | nil => exact fresh_always []
  | cons h hs ih => exact .andThen ih.grows fun rest => .bind fun x => fresh_map _ rest

theorem fresh_optional (h : Handle α) (default : α) : Fresh (h.optional default) :=
  (fresh_always default).orElse h

theorem fresh_between (opening : Handle α) (closing : Handle β) (h : Handle γ) :
    Fresh (between opening closing h) :=
  .andThen (grows_keepRight opening h) fun content => fresh_keepLeft content closing

theorem fresh_enclosed (left right : String) (h : Handle α) :
    Fresh (do between (← symbol left) (← symbol right) h) :=
  .andThen (fresh_ofParser _).grows fun opening =>
    .andThen (fresh_ofParser _).grows fun closing => fresh_between opening closing h

theorem fresh_sepBy1 (h : Handle α) (separator : Handle β) : Fresh (h.sepBy1 separator) :=
  .andThen (grows_keepRight separator h) fun _ =>
    .bind fun _ => .andThen (fresh_ofParser _).grows fun rest => fresh_map _ rest

theorem fresh_sepBy (h : Handle α) (separator : Handle β) : Fresh (h.sepBy separator) :=
  .andThen (fresh_sepBy1 h separator).grows fun list => fresh_optional list []

/-- What was built is the parser that was handed back, or it is new. -/
structure Traced (store : Store Handle Γ) (next : Mark) (origin : Option (Variable Γ α))
    (built : Handle α × Mark) : Prop where
  grows : next ≤ built.2
  given : ∀ x, origin = some x → built.1 = store.get x
  fresh : origin = none → ∀ mark, built.1.mark = some mark → next ≤ mark ∧ mark < built.2

theorem Fresh.traced {c : Build (Handle α)} (fresh : Fresh c) (store : Store Handle Γ)
    (next : Mark) : Traced store next none (c.run next) := by
  refine ⟨fresh.grows next, fun _ impossible => ?_, fun _ => fresh.fresh next⟩
  cases impossible

theorem traced_given (store : Store Handle Γ) (next : Mark) (x : Variable Γ α) :
    Traced store next (some x) ((pure (store.get x) : Build (Handle α)).run next) := by
  refine ⟨Nat.le_refl next, fun y same => ?_, fun impossible => ?_⟩
  · cases same
    rfl
  · cases impossible

/-- Behind the first construction the second one sees what the first one built. -/
theorem Traced.andThen {store : Store Handle Γ} {next : Mark} {origin : Option (Variable Γ β)}
    {origin' : Option (Variable (β :: Γ) α)} {first : Handle β × Mark} {second : Handle α × Mark}
    (traced : Traced store next origin first)
    (traced' : Traced (store.push first.1) first.2 origin' second) :
    Traced store next (origin'.bind fun x => x.resolve origin) second := by
  refine ⟨Nat.le_trans traced.grows traced'.grows, ?_, ?_⟩
  · intro x same
    obtain ⟨y, known, resolved⟩ := Option.bind_eq_some_iff.mp same
    cases y with
    | last => exact (traced'.given _ known).trans (traced.given x resolved)
    | earlier y =>
        cases resolved
        exact traced'.given _ known
  · intro none mark marked
    cases known : origin' with
    | none =>
        obtain ⟨low, high⟩ := traced'.fresh known mark marked
        exact ⟨Nat.le_trans traced.grows low, high⟩
    | some y =>
        rw [known, Option.bind_some] at none
        have handed := traced'.given y known
        cases y with
        | last =>
            rw [handed] at marked
            obtain ⟨low, high⟩ := traced.fresh none mark marked
            exact ⟨low, Nat.lt_of_lt_of_le high traced'.grows⟩
        | earlier y => cases none

theorem traced_orElse (store : Store Handle Γ) (next : Mark) (x y : Variable Γ α) :
    Traced store next (if (store.get x).kind = .never then some y else none)
      (((store.get x).orElse (store.get y)).run next) := by
  unfold Handle.orElse Handle.kind
  cases (store.get x).parser with
  | never error => exact traced_given store next y
  | always value => exact (fresh_ofParser _).traced store next
  | step run => exact (fresh_ofParser _).traced store next

theorem traced_keepRight (store : Store Handle Γ) (next : Mark) (x : Variable Γ α) (y : Variable Γ β) :
    Traced store next (if (store.get x).kind = .always then some y else none)
      (((store.get x).keepRight (store.get y)).run next) := by
  unfold Handle.keepRight Handle.kind
  cases (store.get x).parser with
  | always value => exact traced_given store next y
  | never error => exact (fresh_ofParser _).traced store next
  | step run => exact (fresh_ofParser _).traced store next

/-- What is built while the parsers are joined may be handed back; what a step builds later may
not. -/
theorem traced_bind (store : Store Handle Γ) (next : Mark) (x : Variable Γ α)
    {f : α → Build (Handle β)} {origin : α → Option (Variable Γ β)}
    (traced : ∀ value, Traced store next (origin value) ((f value).run next)) :
    Traced store next ((store.get x).constant?.bind origin) (((store.get x).bind f).run next) := by
  unfold Handle.bind constant?
  cases (store.get x).parser with
  | always value => exact traced value
  | never error => exact (fresh_ofParser _).traced store next
  | step run => exact (fresh_ofParser _).traced store next

theorem Construction.traced (c : Construction Γ α) (store : Store Handle Γ) (next : Mark) :
    Traced store next (c.origin store next) ((c.build store).run next) := by
  induction c generalizing next with
  | given x => exact traced_given store next x
  | andThen first second first_ih second_ih => exact (first_ih store next).andThen (second_ih _ _)
  | bind x f ih => exact traced_bind store next x fun value => ih value store next
  | orElse x y => exact traced_orElse store next x y
  | keepRight x y => exact traced_keepRight store next x y
  | always value => exact (fresh_always value).traced store next
  | never error => exact (fresh_never error).traced store next
  | anyChar => exact (fresh_ofParser .anyChar).traced store next
  | endOfInput => exact (fresh_ofParser .endOfInput).traced store next
  | nothing => exact (fresh_ofParser .nothing).traced store next
  | character c => exact (fresh_ofParser (.character c)).traced store next
  | whitespaceChar => exact (fresh_ofParser .whitespaceChar).traced store next
  | whitespace => exact (fresh_ofParser .whitespace).traced store next
  | skipWhitespace => exact (fresh_ofParser .skipWhitespace).traced store next
  | digit => exact (fresh_ofParser .digit).traced store next
  | many x => exact (fresh_ofParser (.many _)).traced store next
  | many1 x => exact (fresh_ofParser (.many1 _)).traced store next
  | pair x y => exact (fresh_pair _ _).traced store next
  | satisfy x accepts error => exact (fresh_satisfy _ accepts error).traced store next
  | choice description xs => exact (fresh_choice description _).traced store next
  | sequence xs => exact (fresh_sequence _).traced store next
  | optional x default => exact (fresh_optional _ default).traced store next
  | sepBy1 x separator => exact (fresh_sepBy1 _ _).traced store next
  | sepBy x separator => exact (fresh_sepBy _ _).traced store next
  | between opening closing x => exact (fresh_between _ _ _).traced store next
  | brackets x => exact (fresh_enclosed _ _ _).traced store next
  | braces x => exact (fresh_enclosed _ _ _).traced store next
  | quotes x => exact (fresh_enclosed _ _ _).traced store next
  | _ => exact (fresh_ofParser _).traced store next

theorem same_iff {a b : Handle α} :
    a.same b = true ↔ ∃ mark, a.mark = some mark ∧ b.mark = some mark := by
  cases left : a.mark with
  | none => simp [same, left]
  | some m =>
      cases right : b.mark with
      | none => simp [same, left, right]
      | some n =>
          simp only [same, left, right, beq_iff_eq, Option.some.injEq, exists_eq_left']
          exact eq_comm

theorem same_trans {a b c : Handle α} (first : a.same b = true) (second : b.same c = true) :
    a.same c = true := by
  obtain ⟨mark, left, middle⟩ := same_iff.mp first
  obtain ⟨mark', middle', right⟩ := same_iff.mp second
  rw [middle] at middle'
  cases middle'
  exact same_iff.mpr ⟨mark, left, right⟩

theorem kind_of_mark {h : Handle α} {mark : Mark} (marked : h.mark = some mark) : h.kind = .step :=
  h.marked_iff.mp (by rw [marked]; rfl)

theorem same_kind {a b : Handle α} (same : a.same b = true) : a.kind = .step ∧ b.kind = .step := by
  obtain ⟨mark, left, right⟩ := same_iff.mp same
  exact ⟨kind_of_mark left, kind_of_mark right⟩

/-- All marks were given out, and no two different parsers of one type have the same mark. -/
structure Store.Sound (store : Store Handle Γ) (next : Mark) : Prop where
  below : ∀ {α : Type} (x : Variable Γ α) (mark : Mark), (store.get x).mark = some mark → mark < next
  unique : ∀ {α : Type} (x y : Variable Γ α), (store.get x).same (store.get y) = true →
    store.get x = store.get y

theorem Traced.mark_lt {store : Store Handle Γ} {next : Mark} {origin : Option (Variable Γ α)}
    {built : Handle α × Mark} (traced : Traced store next origin built) (sound : store.Sound next)
    {mark : Mark} (marked : built.1.mark = some mark) : mark < built.2 := by
  cases known : origin with
  | none => exact (traced.fresh known mark marked).2
  | some x =>
      rw [traced.given x known] at marked
      exact Nat.lt_of_lt_of_le (sound.below x mark marked) traced.grows

/-- A new mark is larger than all that were there. -/
theorem Traced.not_same {store : Store Handle Γ} {next : Mark} {built : Handle α × Mark}
    (traced : Traced store next none built) (sound : store.Sound next) (x : Variable Γ α) :
    built.1.same (store.get x) = false := by
  refine Bool.eq_false_iff.mpr fun same => ?_
  obtain ⟨mark, left, right⟩ := same_iff.mp same
  have high := (traced.fresh rfl mark left).1
  exact Nat.lt_irrefl mark (Nat.lt_of_lt_of_le (sound.below x mark right) high)

theorem Traced.eq_of_same {store : Store Handle Γ} {next : Mark} {origin : Option (Variable Γ α)}
    {built : Handle α × Mark} (traced : Traced store next origin built) (sound : store.Sound next)
    {x : Variable Γ α} (same : built.1.same (store.get x) = true) : built.1 = store.get x := by
  cases origin with
  | none =>
      rw [traced.not_same sound x] at same
      cases same
  | some y =>
      have handed := traced.given y rfl
      rw [handed] at same ⊢
      exact sound.unique y x same

theorem Store.Sound.push {store : Store Handle Γ} {next : Mark} (sound : store.Sound next)
    {origin : Option (Variable Γ α)} {built : Handle α × Mark}
    (traced : Traced store next origin built) : (store.push built.1).Sound built.2 := by
  constructor
  · intro β x mark marked
    cases x with
    | last => exact traced.mark_lt sound marked
    | earlier x => exact Nat.lt_of_lt_of_le (sound.below x mark marked) traced.grows
  · intro β x y same
    cases x with
    | last =>
        cases y with
        | last => rfl
        | earlier y => exact traced.eq_of_same sound same
    | earlier x =>
        cases y with
        | last =>
            rw [same_symm] at same
            exact (traced.eq_of_same sound same).symm
        | earlier y => exact sound.unique x y same

theorem History.sound (history : History Γ) : history.run.1.Sound history.run.2 := by
  induction history with
  | start =>
      constructor
      · intro α x mark marked
        cases x with
        | last =>
            cases marked
            exact Nat.zero_lt_one
        | earlier x => cases x
      · intro α x y same
        cases x with
        | last =>
            cases y with
            | last => rfl
            | earlier y => cases y
        | earlier x => cases x
  | more history c ih => exact ih.push (c.traced _ _)

/-- In every history being the same is symmetric and transitive, it holds between a parser and its
copy exactly if that is a step, and it relates steps only. What is built is the parser that `origin`
names or the same as nothing that was there, and parsers that are the same come to the same on every
input. What each of them reads is what the operations come to on parsers without marks. -/
theorem identity_of_history {Γ : List Type} (history : History Γ) {α : Type} :
    let get := fun x : Variable Γ α => history.run.1.get x
    let built := fun c : Construction Γ α => ((c.build history.run.1).run history.run.2).1
    let origin := fun c : Construction Γ α => c.origin history.run.1 history.run.2
    (∀ x y, (get x).same (get y) = (get y).same (get x)) ∧
    (∀ x y z, (get x).same (get y) = true → (get y).same (get z) = true →
      (get x).same (get z) = true) ∧
    (∀ x, (built (.given x)).same (get x) = true ↔ (get x).kind = .step) ∧
    (∀ x y, (get x).same (get y) = true → (get x).kind = .step ∧ (get y).kind = .step) ∧
    (∀ c x, origin c = some x → built c = get x) ∧
    (∀ c, origin c = none → ∀ y, (built c).same (get y) = false) ∧
    (∀ x y, (get x).same (get y) = true → ∀ s, (get x).parser.run s = (get y).parser.run s) ∧
    (∀ x, (get x).parser = history.parsers.get x) ∧
    ∀ c, (built c).parser = c.parser history.parsers := by
  intro get built origin
  have sound := history.sound
  have read := history.parsers_run
  refine ⟨fun x y => same_symm _ _, fun x y z => same_trans, fun x => same_self _,
    fun x y => same_kind, fun c x known => (c.traced _ _).given x known, ?_, ?_, ?_, ?_⟩
  · intro c none y
    have traced := c.traced history.run.1 history.run.2
    rw [show c.origin history.run.1 history.run.2 = Option.none from none] at traced
    exact traced.not_same sound y
  · intro x y same s
    rw [show get x = get y from sound.unique x y same]
  · intro x
    rw [← read]
    rfl
  · intro c
    rw [← read]
    exact c.builds history.run.1 history.run.2

/-- A letter, what never and what always succeeds, and the letter again, as it is handed back by an
alternation. A continuation hands it back once more, and a choice with no other member does not. -/
theorem identity_of_letter :
    let history := History.start |>.more (.character 'a') |>.more (.never ⟨"a", "b"⟩)
      |>.more (.always true) |>.more (.orElse (.earlier .last) (.earlier (.earlier .last)))
    let get := fun x : Variable [Char, Bool, Char, Char, Json] Char => history.run.1.get x
    let built := fun c : Construction [Char, Bool, Char, Char, Json] Char =>
      ((c.build history.run.1).run history.run.2).1
    let letter := .earlier (.earlier (.earlier .last))
    (get .last).same (get letter) = true ∧
      (∀ s, (get .last).parser.run s = (get letter).parser.run s) ∧
      (built (.bind (.earlier .last) fun _ => .given letter)).same (get letter) = true ∧
      (built (.choice "letter" [letter])).same (get letter) = false ∧
      (built (.choice "letter" [letter])).parser =
        .choice "letter" [history.parsers.get letter] := by
  intro history get built letter
  obtain ⟨_, _, copied, _, handed, new, alike, _, reads⟩ := identity_of_history history (α := Char)
  have same : (get .last).same (get letter) = true := rfl
  have again : built (.bind (.earlier .last) fun _ => .given letter) = get letter := handed _ _ rfl
  refine ⟨same, alike _ _ same, ?_, new _ rfl letter, reads _⟩
  rw [again]
  exact (same_self _).mpr rfl

end Descent.Handle
