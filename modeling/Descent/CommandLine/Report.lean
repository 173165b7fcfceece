import Descent.CommandLine.Arguments
import Descent.CommandLine.Log
import Descent.Json.Display
import Descent.Json.Grammar

namespace Descent.CommandLine

structure Report where
  code : Nat
  output : String
  errors : String
  deriving DecidableEq, Repr

/-- What is written to the log stands in front of what else is written to that stream. -/
def Report.behind (report : Report) (written : String) : Report :=
  { report with errors := written ++ report.errors }

inductive ReadFault where
  | refused (description : String) (code : Nat)
  | notText
  deriving DecidableEq, Repr

def ReadFault.message : ReadFault → String
  | refused description code => description ++ " (os error " ++ toString code ++ ")"
  | notText => "stream did not contain valid UTF-8"

def decoded (contents : Except ReadFault ByteArray) : Except ReadFault String :=
  contents.bind fun bytes => match String.fromUTF8? bytes with
    | some text => .ok text
    | none => .error .notText

def sampleText : String := "\x7b \"a\": [1, -23.4], \"b\\nc\\\"\\\\\": true \x7d"

/-- What the program leaves to others: reading its arguments, which may end it there and then, reading
files, laying out an error with its cause, and the log, as far as a setting lets events pass. Which
errors are dropped on the way through a text is left open as well. -/
structure Host (m : Type → Type) where
  arguments : List String → Except Report Arguments
  readFile : String → m (Except ReadFault ByteArray)
  layout : (context cause : String) → String
  filter? : String → Option (Event → Bool)
  filter : String → Event → Bool
  line : Event → m String
  dropped : String → List Mismatch

namespace Host

variable {m : Type → Type}

def failure (host : Host m) (context cause : String) : Report :=
  ⟨1, "", "Error: " ++ host.layout context cause ++ "\n"⟩

def ofOutcome (host : Host m) : Outcome Json → Report
  | .ok value => ⟨0, toString value ++ "\n", ""⟩
  | .fail error => host.failure "input is not valid JSON" error.message
  | .stalled => host.failure "input is not valid JSON" "the reading does not end"

/-- Without a setting, or with one that is of no use, warnings pass. -/
def passes (host : Host m) (setting : Option String) : Event → Bool :=
  (setting.bind host.filter?).getD (host.filter "warn")

variable [Monad m]

def log (host : Host m) (setting : Option String) (happened : List Event) : m String :=
  return String.join (← (happened.filter (host.passes setting)).mapM host.line)

def ofText (host : Host m) (setting : Option String) (text : String) : m Report :=
  let outcome := Json.read text
  (host.ofOutcome outcome).behind <$> host.log setting (events (host.dropped text) text outcome)

def ofContents (host : Host m) (setting : Option String) (path : String)
    (contents : Except ReadFault ByteArray) : m Report :=
  match decoded contents with
  | .ok text => host.ofText setting text
  | .error fault => pure (host.failure ("failed to read " ++ path) fault.message)

def run (host : Host m) (setting : Option String) (given : List String) : m Report :=
  match host.arguments given with
  | .error report => pure report
  | .ok ⟨some text, _⟩ => host.ofText setting text
  | .ok ⟨none, some path⟩ => do host.ofContents setting path (← host.readFile path)
  | .ok ⟨none, none⟩ => host.ofText setting sampleText

end Host

def helpText : String :=
  "Parse a JSON document and print it back in minified form

Usage: parsley [OPTIONS] [INPUT]

Arguments:
  [INPUT]  JSON text to parse; a built-in sample is used when omitted

Options:
  -f, --file <FILE>  Read the JSON text from a file instead
  -h, --help         Print help
  -V, --version      Print version
"

/-- How a misuse is explained is left out. -/
def Ending.report : Ending → Report
  | version => ⟨0, "parsley 0.1.0\n", ""⟩
  | help => ⟨0, helpText, ""⟩
  | misuse => ⟨2, "", ""⟩

def indented (text : String) : String :=
  "    " ++ String.ofList (text.toList.flatMap fun c => if c = '\n' then "\n    ".toList else [c])

/-- With nothing in the log but warnings, of which there are none. -/
def Host.plain {m : Type → Type} [Monad m] (readFile : String → m (Except ReadFault ByteArray)) :
    Host m where
  arguments given := (Arguments.parse given).mapError Ending.report
  readFile := readFile
  layout context cause := context ++ "\n\nCaused by:\n" ++ indented cause
  filter? _ := none
  filter _ event := decide (event.level.verbosity ≤ Level.warn.verbosity)
  line _ := pure ""
  dropped _ := []

/-- Answers the arguments where no setting is made for the log. -/
def respond {m : Type → Type} [Monad m] (readFile : String → m (Except ReadFault ByteArray))
    (given : List String) : m Report :=
  (Host.plain readFile).run none given

end Descent.CommandLine
