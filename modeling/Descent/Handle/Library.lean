import Descent.Handle.Basic
import Descent.Parser.Token

namespace Descent.Handle

variable {α β γ : Type}

def anyChar : Build (Handle Char) := ofParser .anyChar

def endOfInput : Build (Handle Unit) := ofParser .endOfInput

def nothing : Build (Handle Unit) := ofParser .nothing

def choice (description : String) : List (Handle α) → Build (Handle α)
  | [] => pure (never ⟨description, "no match"⟩)
  | h :: hs => do h.orElse (← choice description hs)

def sequence : List (Handle α) → Build (Handle (List α))
  | [] => pure (always [])
  | h :: hs => do
    let rest ← sequence hs
    h.bind fun x => rest.map (x :: ·)

def ignore (h : Handle α) : Build (Handle Unit) := h.replace ()

def optional (h : Handle α) (default : α) : Build (Handle α) := h.orElse (always default)

def between (opening : Handle α) (closing : Handle β) (h : Handle γ) : Build (Handle γ) := do
  (← opening.keepRight h).keepLeft closing

def many (h : Handle α) : Build (Handle (List α)) := ofParser (.many h.parser)

def many1 (h : Handle α) : Build (Handle (List α)) := ofParser (.many1 h.parser)

def sepBy1 (h : Handle α) (separator : Handle β) : Build (Handle (List α)) := do
  let following ← separator.keepRight h
  h.bind fun first => do (← many following).map (first :: ·)

def sepBy (h : Handle α) (separator : Handle β) : Build (Handle (List α)) := do
  (← sepBy1 h separator).optional []

def character (expected : Char) : Build (Handle Char) := ofParser (.character expected)

def whitespaceChar : Build (Handle Char) := ofParser .whitespaceChar

def whitespace : Build (Handle (List Char)) := ofParser .whitespace

def skipWhitespace : Build (Handle Unit) := ofParser .skipWhitespace

def digit : Build (Handle Char) := ofParser .digit

def literal (text : String) : Build (Handle String) := ofParser (.literal text)

def symbol (text : String) : Build (Handle String) := ofParser (.symbol text)

def brackets (h : Handle α) : Build (Handle α) := do between (← symbol "[") (← symbol "]") h

def braces (h : Handle α) : Build (Handle α) := do between (← symbol "\x7b") (← symbol "\x7d") h

def quotes (h : Handle α) : Build (Handle α) := do between (← symbol "\"") (← symbol "\"") h

end Descent.Handle
