import Descent.Json.Value
import Descent.Outcome

namespace Descent.CommandLine

inductive Level where
  | error
  | warn
  | info
  | debug
  | trace
  deriving DecidableEq, Repr

def Level.verbosity : Level → Nat
  | error => 0
  | warn => 1
  | info => 2
  | debug => 3
  | trace => 4

/-- What parsing a text tells the log, with the length of the text in bytes. -/
inductive Event where
  | dropped (error : Mismatch)
  | succeeded (length : Nat)
  | failed (length : Nat) (error : Mismatch)
  deriving DecidableEq, Repr

def Event.level : Event → Level
  | dropped _ => .trace
  | succeeded _ => .debug
  | failed _ _ => .debug

/-- An alternative that fails is reported when its error is dropped, and the outcome at the end. -/
def events (dropped : List Mismatch) (text : String) (outcome : Outcome Json) : List Event :=
  dropped.map .dropped ++ match outcome with
    | .ok _ => [.succeeded text.utf8ByteSize]
    | .fail error => [.failed text.utf8ByteSize error]
    | .stalled => []

end Descent.CommandLine
