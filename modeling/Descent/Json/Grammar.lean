import Descent.Binary64.Nearest
import Descent.Json.Value
import Descent.Parser.Token

/-!
The JSON grammar. Every production takes the whitespace behind it along, and `document` allows
whitespace in front as well.

    number  = "-"? ("0" | [1-9] [0-9]*) ("." [0-9]+)?
    boolean = "true" | "false"
    string  = '"' character* '"', with the escapes \n \t \" \\
    array   = "[" (value ("," value)*)? "]"
    object  = "{" (entry ("," entry)*)? "}", where entry = string ":" value
    value   = number | boolean | string | object | array

The recursion from a value into its items is cut at a depth. A nested value stands behind a bracket,
so a text is always shorter than the depth that `value` allows for it.
-/

namespace Descent.Json.Grammar

open Descent.Parser

def sign : Parser (List Char) := optional ((character '-').map fun c => [c]) []

def nonZeroDigit : Parser Char :=
  digit.satisfy (· != '0') fun c => ⟨"non-zero digit", c.toString⟩

def wholePart : Parser (List Char) :=
  ((character '0').map fun c => [c]).orElse
    (nonZeroDigit.bind fun first => (many digit).map (first :: ·))

def fractionPart : Parser (List Char) := ((character '.').keepRight (many1 digit)).map ('.' :: ·)

def numeralParts : Parser (List (List Char)) :=
  Parser.sequence [sign, wholePart, optional fractionPart []]

def number : Parser Binary64 :=
  (numeralParts.bind fun parts =>
    match Binary64.read? parts.flatten with
    | some x => always x
    | none => never ⟨"number", String.ofList parts.flatten⟩).keepLeft skipWhitespace

def boolean : Parser Bool :=
  choice "boolean" [(symbol "true").replace true, (symbol "false").replace false]

def escape (code meaning : Char) : Parser Char :=
  ((character '\\').keepRight (character code)).replace meaning

def stringCharacter : Parser Char :=
  choice "JSON string character"
    [escape 'n' '\n', escape 't' '\t', escape '"' '"', escape '\\' '\\',
      anyChar.satisfy (· != '"') fun c => ⟨"not a quote", c.toString⟩]

/-- Whitespace behind the opening quote is content. -/
def string : Parser String :=
  ((((character '"').keepRight (many stringCharacter)).keepLeft (character '"')).map
    String.ofList).keepLeft skipWhitespace

def arrayOf (item : Unit → Parser Json) : Parser (List Json) :=
  nothing.bind fun _ => brackets (sepBy (item ()) (symbol ","))

def entryOf (item : Unit → Parser Json) : Parser (String × Json) :=
  (string.keepLeft (symbol ":")).bind fun key => (item ()).map fun value => (key, value)

def objectOf (item : Unit → Parser Json) : Parser (Entries Json) :=
  (braces (sepBy (entryOf item) (symbol ","))).map Entries.ofBindings

def valueOf (item : Unit → Parser Json) : Parser Json :=
  choice "JSON value"
    [number.map Json.number, boolean.map Json.boolean, string.map Json.string,
      (objectOf item).map Json.object, (arrayOf item).map Json.array]

def valueWithin : Nat → Parser Json
  | 0 => step fun _ => .stalled
  | depth + 1 => valueOf fun _ => valueWithin depth

def array : Parser (List Json) :=
  step fun input => (arrayOf fun _ => valueWithin input.length).run input

def object : Parser (Entries Json) :=
  step fun input => (objectOf fun _ => valueWithin input.length).run input

def value : Parser Json := step fun input => (valueWithin (input.length + 1)).run input

def document : Parser Json := skipWhitespace.keepRight value

end Descent.Json.Grammar

namespace Descent.Json

def read (text : String) : Outcome Json := Grammar.document.parse text.toList

end Descent.Json
