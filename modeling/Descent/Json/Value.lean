import Descent.Binary64.Basic
import Descent.Json.Entries

namespace Descent

inductive Json where
  | number (value : Binary64)
  | boolean (value : Bool)
  | string (value : String)
  | array (items : List Json)
  | object (entries : List (String × Json))
  deriving Repr

namespace Json

mutual

def Ordered : Json → Prop
  | .array items => OrderedItems items
  | .object entries => Entries.Ascending entries ∧ OrderedEntries entries
  | _ => True

def OrderedItems : List Json → Prop
  | [] => True
  | item :: items => Ordered item ∧ OrderedItems items

def OrderedEntries : List (String × Json) → Prop
  | [] => True
  | (_, value) :: entries => Ordered value ∧ OrderedEntries entries

end

mutual

/-- Whether every number at any depth passes the test. -/
def allNumbers (test : Binary64 → Bool) : Json → Bool
  | .number n => test n
  | .array items => allNumbersItems test items
  | .object entries => allNumbersEntries test entries
  | _ => true

def allNumbersItems (test : Binary64 → Bool) : List Json → Bool
  | [] => true
  | item :: items => allNumbers test item && allNumbersItems test items

def allNumbersEntries (test : Binary64 → Bool) : List (String × Json) → Bool
  | [] => true
  | (_, value) :: entries => allNumbers test value && allNumbersEntries test entries

end

mutual

/-- Same shape, same keys and texts, and numbers that are numerically equal. -/
def equal : Json → Json → Bool
  | .number x, .number y => x.equal y
  | .boolean x, .boolean y => x == y
  | .string x, .string y => x == y
  | .array xs, .array ys => equalItems xs ys
  | .object xs, .object ys => equalEntries xs ys
  | _, _ => false

def equalItems : List Json → List Json → Bool
  | [], [] => true
  | x :: xs, y :: ys => equal x y && equalItems xs ys
  | _, _ => false

def equalEntries : List (String × Json) → List (String × Json) → Bool
  | [], [] => true
  | (k, x) :: xs, (l, y) :: ys => k == l && equal x y && equalEntries xs ys
  | _, _ => false

end

/-- The object with these bindings, of which the last for a key counts. -/
def ofBindings (bindings : List (String × Json)) : Json := object (Entries.ofBindings bindings)

end Json

end Descent
