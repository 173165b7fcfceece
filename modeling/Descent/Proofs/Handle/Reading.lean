import Descent.Proofs.Handle.Construction

namespace Descent.Handle

variable {Γ : List Type} {α β γ : Type}

def Store.parsers (store : Store Handle Γ) : Store Parser Γ := ⟨fun x => (store.get x).parser⟩

theorem Store.parsers_push (store : Store Handle Γ) (h : Handle β) :
    (store.push h).parsers = store.parsers.push h.parser := by
  refine congrArg Store.mk (funext fun α => funext fun x => ?_)
  cases x with
  | last => rfl
  | earlier x => rfl

theorem Store.map_parser (store : Store Handle Γ) (xs : List (Variable Γ α)) :
    (xs.map store.get).map Handle.parser = xs.map store.parsers.get := List.map_map

namespace Construction

def parser : {Γ : List Type} → {α : Type} → Construction Γ α → Store Parser Γ → Parser α
  | _, _, given x, store => store.get x
  | _, _, andThen first second, store => second.parser (store.push (first.parser store))
  | _, _, new run, _ => .step run
  | _, _, always value, _ => .always value
  | _, _, never error, _ => .never error
  | _, _, anyChar, _ => .anyChar
  | _, _, endOfInput, _ => .endOfInput
  | _, _, nothing, _ => .nothing
  | _, _, bind x f, store => (store.get x).bind fun value => (f value).parser store
  | _, _, orElse x y, store => (store.get x).orElse (store.get y)
  | _, _, map f x, store => (store.get x).map f
  | _, _, replace x value, store => (store.get x).replace value
  | _, _, keepRight x y, store => (store.get x).keepRight (store.get y)
  | _, _, keepLeft x y, store => (store.get x).keepLeft (store.get y)
  | _, _, pair x y, store => (store.get x).pair (store.get y)
  | _, _, label x name, store => (store.get x).label name
  | _, _, satisfy x accepts error, store => (store.get x).satisfy accepts error
  | _, _, character c, _ => .character c
  | _, _, whitespaceChar, _ => .whitespaceChar
  | _, _, whitespace, _ => .whitespace
  | _, _, skipWhitespace, _ => .skipWhitespace
  | _, _, digit, _ => .digit
  | _, _, literal text, _ => .literal text
  | _, _, symbol text, _ => .symbol text
  | _, _, choice description xs, store => .choice description (xs.map store.get)
  | _, _, sequence xs, store => .sequence (xs.map store.get)
  | _, _, ignore x, store => (store.get x).ignore
  | _, _, optional x default, store => (store.get x).optional default
  | _, _, many x, store => .many (store.get x)
  | _, _, many1 x, store => .many1 (store.get x)
  | _, _, sepBy1 x separator, store => .sepBy1 (store.get x) (store.get separator)
  | _, _, sepBy x separator, store => .sepBy (store.get x) (store.get separator)
  | _, _, between opening closing x, store =>
    .between (store.get opening) (store.get closing) (store.get x)
  | _, _, brackets x, store => .brackets (store.get x)
  | _, _, braces x, store => .braces (store.get x)
  | _, _, quotes x, store => .quotes (store.get x)

end Construction

/-- Whatever the next mark is, this parser is built. -/
def Builds (c : Build (Handle α)) (p : Parser α) : Prop := ∀ next, (c.run next).1.parser = p

theorem builds_pure (h : Handle α) : Builds (pure h) h.parser := fun _ => rfl

theorem builds_ofParser (p : Parser α) : Builds (ofParser p) p := by
  intro next
  cases p with
  | always value => rfl
  | never error => rfl
  | step run => rfl

theorem Builds.andThen {first : Build (Handle α)} {second : Handle α → Build (Handle β)}
    {p : Parser α} {q : Parser β} (builds : Builds first p)
    (later : ∀ h, h.parser = p → Builds (second h) q) : Builds (first >>= second) q :=
  fun next => later _ (builds next) _

/-- At the time of reading a continuation is built with the first mark, which is as good as any. -/
theorem Builds.bind (h : Handle α) {f : α → Build (Handle β)} {g : α → Parser β}
    (builds : ∀ value, Builds (f value) (g value)) : Builds (h.bind f) (h.parser.bind g) := by
  have later : (fun value => ((f value).run 0).1.parser) = g := funext fun value => builds value 0
  intro next
  unfold Handle.bind
  rw [later]
  cases h.parser with
  | always value => exact builds value next
  | never error => rfl
  | step run => exact builds_ofParser _ next

theorem builds_orElse (h other : Handle α) :
    Builds (h.orElse other) (h.parser.orElse other.parser) := by
  intro next
  unfold Handle.orElse
  cases h.parser with
  | always value => rfl
  | never error => rfl
  | step run => exact builds_ofParser _ next

theorem builds_keepRight (h : Handle α) (other : Handle β) :
    Builds (h.keepRight other) (h.parser.keepRight other.parser) := by
  intro next
  unfold Handle.keepRight
  cases h.parser with
  | always value => rfl
  | never error => rfl
  | step run => exact builds_ofParser _ next

theorem builds_map (f : α → β) (h : Handle α) : Builds (h.map f) (h.parser.map f) :=
  builds_ofParser _

theorem builds_pair (h : Handle α) (other : Handle β) :
    Builds (h.pair other) (h.parser.pair other.parser) :=
  .bind h fun _ => builds_map _ other

theorem builds_satisfy (h : Handle α) (accepts : α → Bool) (error : α → Mismatch) :
    Builds (h.satisfy accepts error) (h.parser.satisfy accepts error) := by
  refine .bind h fun value next => ?_
  cases accepts value with
  | true => rfl
  | false => rfl

theorem builds_choice (description : String) (hs : List (Handle α)) :
    Builds (Handle.choice description hs) (.choice description (hs.map Handle.parser)) := by
  induction hs with
  | nil => exact builds_pure _
  | cons h hs ih =>
      refine ih.andThen fun others known => ?_
      rw [List.map_cons, Parser.choice_cons, ← known]
      exact builds_orElse h others

theorem builds_sequence (hs : List (Handle α)) :
    Builds (Handle.sequence hs) (.sequence (hs.map Handle.parser)) := by
  induction hs with
  | nil => exact builds_pure _
  | cons h hs ih =>
      refine ih.andThen fun rest known => ?_
      rw [List.map_cons, Parser.sequence_cons, ← known]
      exact .bind h fun x => builds_map _ rest

theorem builds_optional (h : Handle α) (default : α) :
    Builds (h.optional default) (h.parser.optional default) :=
  builds_orElse h (always default)

theorem builds_between (opening : Handle α) (closing : Handle β) (h : Handle γ) :
    Builds (between opening closing h) (.between opening.parser closing.parser h.parser) := by
  refine (builds_keepRight opening h).andThen fun content known => ?_
  rw [Parser.between, ← known]
  exact builds_ofParser _

theorem builds_enclosed (left right : String) (h : Handle α) :
    Builds (do between (← symbol left) (← symbol right) h)
      (.between (.symbol left) (.symbol right) h.parser) := by
  refine (builds_ofParser (.symbol left)).andThen fun opening opens => ?_
  refine (builds_ofParser (.symbol right)).andThen fun closing closes => ?_
  rw [← opens, ← closes]
  exact builds_between opening closing h

theorem builds_sepBy1 (h : Handle α) (separator : Handle β) :
    Builds (h.sepBy1 separator) (.sepBy1 h.parser separator.parser) := by
  refine (builds_keepRight separator h).andThen fun following known => ?_
  rw [Parser.sepBy1, ← known]
  refine .bind h fun first => ?_
  refine (builds_ofParser (.many following.parser)).andThen fun rest repeated => ?_
  rw [← repeated]
  exact builds_map _ rest

theorem builds_sepBy (h : Handle α) (separator : Handle β) :
    Builds (h.sepBy separator) (.sepBy h.parser separator.parser) := by
  refine (builds_sepBy1 h separator).andThen fun list known => ?_
  rw [Parser.sepBy, ← known]
  exact builds_optional list []

theorem Construction.builds (c : Construction Γ α) (store : Store Handle Γ) :
    Builds (c.build store) (c.parser store.parsers) := by
  induction c with
  | given x => exact builds_pure _
  | andThen first second first_ih second_ih =>
      refine (first_ih store).andThen fun h known => ?_
      have behind := second_ih (store.push h)
      rw [store.parsers_push, known] at behind
      exact behind
  | bind x f ih => exact .bind _ fun value => ih value store
  | orElse x y => exact builds_orElse _ _
  | keepRight x y => exact builds_keepRight _ _
  | always value => exact builds_pure _
  | never error => exact builds_pure _
  | pair x y => exact builds_pair _ _
  | satisfy x accepts error => exact builds_satisfy _ accepts error
  | choice description xs =>
      have built := builds_choice description (xs.map store.get)
      rw [store.map_parser] at built
      exact built
  | sequence xs =>
      have built := builds_sequence (xs.map store.get)
      rw [store.map_parser] at built
      exact built
  | optional x default => exact builds_optional _ default
  | sepBy1 x separator => exact builds_sepBy1 _ _
  | sepBy x separator => exact builds_sepBy _ _
  | between opening closing x => exact builds_between _ _ _
  | brackets x => exact builds_enclosed _ _ _
  | braces x => exact builds_enclosed _ _ _
  | quotes x => exact builds_enclosed _ _ _
  | _ => exact builds_ofParser _

/-- All that was built, without marks. -/
def History.parsers : {Γ : List Type} → History Γ → Store Parser Γ
  | _, start => Store.push ⟨fun x => nomatch x⟩ jsonValue.parser
  | _, more history c => history.parsers.push (c.parser history.parsers)

theorem History.parsers_run (history : History Γ) : history.run.1.parsers = history.parsers := by
  induction history with
  | start =>
      refine congrArg Store.mk (funext fun α => funext fun x => ?_)
      cases x with
      | last => rfl
      | earlier x => cases x
  | more history c ih =>
      calc (history.more c).run.1.parsers
          = history.run.1.parsers.push ((c.build history.run.1).run history.run.2).1.parser :=
            Store.parsers_push _ _
        _ = history.parsers.push (c.parser history.parsers) := by
            rw [c.builds history.run.1 history.run.2, ih]

end Descent.Handle
