import Descent.Handle.Json

namespace Descent.Handle

/-- One of the parsers that were built, the latest first, with the types of their values. -/
inductive Variable : List Type → Type → Type 1
  | last {Γ : List Type} {α : Type} : Variable (α :: Γ) α
  | earlier {Γ : List Type} {α β : Type} (x : Variable Γ α) : Variable (β :: Γ) α

structure Store (F : Type → Type) (Γ : List Type) where
  get : ∀ {α : Type}, Variable Γ α → F α

def Store.push {F : Type → Type} {Γ : List Type} {β : Type} (store : Store F Γ) (built : F β) :
    Store F (β :: Γ) where
  get
    | .last => built
    | .earlier x => store.get x

/-- One operation on parsers that were built, or several in a row. What `bind` continues with is a
construction for every value. -/
inductive Construction : List Type → Type → Type 1
  | given {Γ : List Type} {α : Type} (x : Variable Γ α) : Construction Γ α
  | andThen {Γ : List Type} {α β : Type} (first : Construction Γ α)
      (second : Construction (α :: Γ) β) : Construction Γ β
  | new {Γ : List Type} {α : Type} (run : List Char → Outcome (Parsed α)) : Construction Γ α
  | always {Γ : List Type} {α : Type} (value : α) : Construction Γ α
  | never {Γ : List Type} {α : Type} (error : Mismatch) : Construction Γ α
  | anyChar {Γ : List Type} : Construction Γ Char
  | endOfInput {Γ : List Type} : Construction Γ Unit
  | nothing {Γ : List Type} : Construction Γ Unit
  | bind {Γ : List Type} {α β : Type} (x : Variable Γ α) (f : α → Construction Γ β) : Construction Γ β
  | orElse {Γ : List Type} {α : Type} (x y : Variable Γ α) : Construction Γ α
  | map {Γ : List Type} {α β : Type} (f : α → β) (x : Variable Γ α) : Construction Γ β
  | replace {Γ : List Type} {α β : Type} (x : Variable Γ α) (value : β) : Construction Γ β
  | keepRight {Γ : List Type} {α β : Type} (x : Variable Γ α) (y : Variable Γ β) : Construction Γ β
  | keepLeft {Γ : List Type} {α β : Type} (x : Variable Γ α) (y : Variable Γ β) : Construction Γ α
  | pair {Γ : List Type} {α β : Type} (x : Variable Γ α) (y : Variable Γ β) : Construction Γ (α × β)
  | label {Γ : List Type} {α : Type} (x : Variable Γ α) (name : String) : Construction Γ α
  | satisfy {Γ : List Type} {α : Type} (x : Variable Γ α) (accepts : α → Bool)
      (error : α → Mismatch) : Construction Γ α
  | character {Γ : List Type} (c : Char) : Construction Γ Char
  | whitespaceChar {Γ : List Type} : Construction Γ Char
  | whitespace {Γ : List Type} : Construction Γ (List Char)
  | skipWhitespace {Γ : List Type} : Construction Γ Unit
  | digit {Γ : List Type} : Construction Γ Char
  | literal {Γ : List Type} (text : String) : Construction Γ String
  | symbol {Γ : List Type} (text : String) : Construction Γ String
  | choice {Γ : List Type} {α : Type} (description : String) (xs : List (Variable Γ α)) :
      Construction Γ α
  | sequence {Γ : List Type} {α : Type} (xs : List (Variable Γ α)) : Construction Γ (List α)
  | ignore {Γ : List Type} {α : Type} (x : Variable Γ α) : Construction Γ Unit
  | optional {Γ : List Type} {α : Type} (x : Variable Γ α) (default : α) : Construction Γ α
  | many {Γ : List Type} {α : Type} (x : Variable Γ α) : Construction Γ (List α)
  | many1 {Γ : List Type} {α : Type} (x : Variable Γ α) : Construction Γ (List α)
  | sepBy1 {Γ : List Type} {α β : Type} (x : Variable Γ α) (separator : Variable Γ β) :
      Construction Γ (List α)
  | sepBy {Γ : List Type} {α β : Type} (x : Variable Γ α) (separator : Variable Γ β) :
      Construction Γ (List α)
  | between {Γ : List Type} {α β γ : Type} (opening : Variable Γ α) (closing : Variable Γ β)
      (x : Variable Γ γ) : Construction Γ γ
  | brackets {Γ : List Type} {α : Type} (x : Variable Γ α) : Construction Γ α
  | braces {Γ : List Type} {α : Type} (x : Variable Γ α) : Construction Γ α
  | quotes {Γ : List Type} {α : Type} (x : Variable Γ α) : Construction Γ α

namespace Construction

def build : {Γ : List Type} → {α : Type} → Construction Γ α → Store Handle Γ → Build (Handle α)
  | _, _, given x, store => pure (store.get x)
  | _, _, andThen first second, store => do second.build (store.push (← first.build store))
  | _, _, new run, _ => ofParser (.step run)
  | _, _, always value, _ => pure (Handle.always value)
  | _, _, never error, _ => pure (Handle.never error)
  | _, _, anyChar, _ => Handle.anyChar
  | _, _, endOfInput, _ => Handle.endOfInput
  | _, _, nothing, _ => Handle.nothing
  | _, _, bind x f, store => (store.get x).bind fun value => (f value).build store
  | _, _, orElse x y, store => (store.get x).orElse (store.get y)
  | _, _, map f x, store => (store.get x).map f
  | _, _, replace x value, store => (store.get x).replace value
  | _, _, keepRight x y, store => (store.get x).keepRight (store.get y)
  | _, _, keepLeft x y, store => (store.get x).keepLeft (store.get y)
  | _, _, pair x y, store => (store.get x).pair (store.get y)
  | _, _, label x name, store => (store.get x).label name
  | _, _, satisfy x accepts error, store => (store.get x).satisfy accepts error
  | _, _, character c, _ => Handle.character c
  | _, _, whitespaceChar, _ => Handle.whitespaceChar
  | _, _, whitespace, _ => Handle.whitespace
  | _, _, skipWhitespace, _ => Handle.skipWhitespace
  | _, _, digit, _ => Handle.digit
  | _, _, literal text, _ => Handle.literal text
  | _, _, symbol text, _ => Handle.symbol text
  | _, _, choice description xs, store => Handle.choice description (xs.map store.get)
  | _, _, sequence xs, store => Handle.sequence (xs.map store.get)
  | _, _, ignore x, store => (store.get x).ignore
  | _, _, optional x default, store => (store.get x).optional default
  | _, _, many x, store => (store.get x).many
  | _, _, many1 x, store => (store.get x).many1
  | _, _, sepBy1 x separator, store => (store.get x).sepBy1 (store.get separator)
  | _, _, sepBy x separator, store => (store.get x).sepBy (store.get separator)
  | _, _, between opening closing x, store =>
    Handle.between (store.get opening) (store.get closing) (store.get x)
  | _, _, brackets x, store => (store.get x).brackets
  | _, _, braces x, store => (store.get x).braces
  | _, _, quotes x, store => (store.get x).quotes

end Construction

inductive History : List Type → Type 1
  | start : History [Json]
  | more {Γ : List Type} {α : Type} (history : History Γ) (c : Construction Γ α) : History (α :: Γ)

namespace History

def run : {Γ : List Type} → History Γ → Store Handle Γ × Mark
  | _, start => (Store.push ⟨fun x => nomatch x⟩ jsonValue, 1)
  | _, more history c =>
    let built := (c.build history.run.1).run history.run.2
    (history.run.1.push built.1, built.2)

end History

end Descent.Handle
