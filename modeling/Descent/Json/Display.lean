import Descent.Binary64.Display
import Descent.Json.Value

namespace Descent.Json

def escaped : Char → List Char
  | '\n' => ['\\', 'n']
  | '\t' => ['\\', 't']
  | '"' => ['\\', '"']
  | '\\' => ['\\', '\\']
  | c => [c]

def quoted (text : String) : List Char :=
  '"' :: (text.toList.flatMap escaped ++ ['"'])

mutual

def display : Json → List Char
  | .number n => n.display
  | .boolean b => if b then "true".toList else "false".toList
  | .string s => quoted s
  | .array [] => ['[', ']']
  | .array (item :: items) => '[' :: (display item ++ displayItems items)
  | .object [] => ['\x7b', '\x7d']
  | .object ((key, value) :: entries) =>
      '\x7b' :: (quoted key ++ ':' :: (display value ++ displayEntries entries))

/-- The items after the first, with the closing bracket. -/
def displayItems : List Json → List Char
  | [] => [']']
  | item :: items => ',' :: (display item ++ displayItems items)

/-- The entries after the first, with the closing brace. -/
def displayEntries : List (String × Json) → List Char
  | [] => ['\x7d']
  | (key, value) :: entries =>
      ',' :: (quoted key ++ ':' :: (display value ++ displayEntries entries))

end

instance : ToString Json := ⟨fun value => String.ofList value.display⟩

end Descent.Json
