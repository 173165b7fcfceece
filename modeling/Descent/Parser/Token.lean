import Descent.Parser.Repeat
import Descent.Text.Blank

namespace Descent.Parser

variable {α : Type}

def character (expected : Char) : Parser Char :=
  anyChar.satisfy (· == expected) fun c => ⟨expected.toString, c.toString⟩

def whitespaceChar : Parser Char :=
  anyChar.satisfy isBlank fun c => ⟨"whitespace", c.toString⟩

def whitespace : Parser (List Char) := many whitespaceChar

def skipWhitespace : Parser Unit := ignore whitespace

def digit : Parser Char :=
  anyChar.satisfy Char.isDigit fun c => ⟨"digit", c.toString⟩

def literal (text : String) : Parser String :=
  ((sequence (text.toList.map character)).map String.ofList).keepLeft skipWhitespace

def symbol (text : String) : Parser String := (literal text).keepLeft whitespace

def brackets (p : Parser α) : Parser α := between (symbol "[") (symbol "]") p

def braces (p : Parser α) : Parser α := between (symbol "\x7b") (symbol "\x7d") p

def quotes (p : Parser α) : Parser α := between (symbol "\"") (symbol "\"") p

end Descent.Parser
