import Descent.Json.Value

namespace Descent

inductive Interchange where
  | null
  | number (value : Binary64)
  | boolean (value : Bool)
  | string (value : String)
  | array (items : List Interchange)
  | object (entries : List (String × Interchange))
  deriving Repr

namespace Json

mutual

/-- The tree as it is handed to an encoder, which may put what it likes for a number. -/
def encode (number : Binary64 → Interchange) : Json → Interchange
  | .number n => number n
  | .boolean b => .boolean b
  | .string s => .string s
  | .array items => .array (encodeItems number items)
  | .object entries => .object (encodeEntries number entries)

def encodeItems (number : Binary64 → Interchange) : List Json → List Interchange
  | [] => []
  | item :: items => encode number item :: encodeItems number items

def encodeEntries (number : Binary64 → Interchange) :
    List (String × Json) → List (String × Interchange)
  | [] => []
  | (key, value) :: entries => (key, encode number value) :: encodeEntries number entries

end

end Json

namespace Interchange

mutual

def hasNull : Interchange → Bool
  | .null => true
  | .array items => hasNullItems items
  | .object entries => hasNullEntries entries
  | _ => false

def hasNullItems : List Interchange → Bool
  | [] => false
  | item :: items => hasNull item || hasNullItems items

def hasNullEntries : List (String × Interchange) → Bool
  | [] => false
  | (_, value) :: entries => hasNull value || hasNullEntries entries

end

end Interchange

/-- A number that is not finite has no text for exchange. -/
def Binary64.interchange (x : Binary64) : Interchange := if x.isFinite then .number x else .null

def Json.interchange (v : Json) : Interchange := v.encode Binary64.interchange

end Descent
