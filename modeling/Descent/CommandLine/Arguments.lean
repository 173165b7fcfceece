namespace Descent.CommandLine

structure Arguments where
  input : Option String
  file : Option String
  deriving DecidableEq, Repr

inductive Ending where
  | version
  | help
  | misuse
  deriving DecidableEq, Repr

/-- One argument on its own. An option for a file may carry the path in the same argument. -/
inductive Word where
  | endOfOptions
  | version
  | help
  | file (attached : Option String)
  | unknown
  | plain (text : String)
  deriving DecidableEq, Repr

namespace Word

def ofLong (body : List Char) : Word :=
  let name := String.ofList (body.takeWhile (· != '='))
  match body.dropWhile (· != '='), name with
  | [], "file" => file none
  | _ :: path, "file" => file (some (String.ofList path))
  | [], "version" => version
  | [], "help" => help
  | _, _ => unknown

/-- The path behind a short option may be set off by one equals sign. -/
def ofShort (letter : Char) (body : List Char) : Word :=
  match letter, body with
  | 'f', [] => file none
  | 'f', '=' :: path => file (some (String.ofList path))
  | 'f', path => file (some (String.ofList path))
  | 'V', _ => version
  | 'h', _ => help
  | _, _ => unknown

/-- A hyphen alone is no option. -/
def ofArgument (argument : String) : Word :=
  match argument.toList with
  | ['-', '-'] => endOfOptions
  | '-' :: '-' :: body => ofLong body
  | '-' :: letter :: body => ofShort letter body
  | _ => plain argument

end Word

namespace Arguments

def ofParts (input path : Option String) : Except Ending Arguments :=
  if input.isSome && path.isSome then .error .misuse else .ok ⟨input, path⟩

/-- Behind the end of the options every argument is text. -/
def afterOptions (input path : Option String) : List String → Except Ending Arguments
  | [] => ofParts input path
  | argument :: arguments =>
    if input.isSome then .error .misuse else afterOptions (some argument) path arguments

def ofWords (input path : Option String) : List String → Except Ending Arguments
  | [] => ofParts input path
  | argument :: arguments =>
    match Word.ofArgument argument with
    | .endOfOptions => afterOptions input path arguments
    | .version => .error .version
    | .help => .error .help
    | .unknown => .error .misuse
    | .plain given =>
      if input.isSome then .error .misuse else ofWords (some given) path arguments
    | .file (some given) =>
      if path.isSome || given.isEmpty then .error .misuse else ofWords input (some given) arguments
    | .file none =>
      match arguments with
      | [] => .error .misuse
      | following :: arguments =>
        match Word.ofArgument following with
        | .plain given =>
          if path.isSome || given.isEmpty then .error .misuse
          else ofWords input (some given) arguments
        | _ => .error .misuse

def parse (arguments : List String) : Except Ending Arguments := ofWords none none arguments

end Arguments

end Descent.CommandLine
