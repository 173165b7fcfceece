import Descent.Parser.Basic

namespace Descent.Parser

variable {α : Type}

def anyChar : Parser Char :=
  step fun
    | [] => .fail ⟨"any character", "end of input"⟩
    | c :: rest => .ok ⟨c, rest⟩

def endOfInput : Parser Unit :=
  step fun
    | [] => .ok ⟨(), []⟩
    | c :: _ => .fail ⟨"end of input", c.toString⟩

/-- Reads nothing, but only when it is run; `nothing.bind` puts off building what follows. -/
def nothing : Parser Unit := step fun input => .ok ⟨(), input⟩

def parse (p : Parser α) (input : List Char) : Outcome α :=
  ((p.keepLeft endOfInput).run input).map Parsed.value

@[simp] theorem run_anyChar_nil :
    anyChar.run [] = .fail ⟨"any character", "end of input"⟩ := rfl

@[simp] theorem run_anyChar_cons (c : Char) (rest : List Char) :
    anyChar.run (c :: rest) = .ok ⟨c, rest⟩ := rfl

@[simp] theorem run_endOfInput_nil : endOfInput.run [] = .ok ⟨(), []⟩ := rfl

@[simp] theorem run_endOfInput_cons (c : Char) (rest : List Char) :
    endOfInput.run (c :: rest) = .fail ⟨"end of input", c.toString⟩ := rfl

@[simp] theorem run_nothing (input : List Char) : nothing.run input = .ok ⟨(), input⟩ := rfl

theorem parse_eq (p : Parser α) (input : List Char) :
    p.parse input = (p.run input).bind fun r => match r.rest with
      | [] => .ok r.value
      | c :: _ => .fail ⟨"end of input", c.toString⟩ := by
  simp only [parse, run_keepLeft, Outcome.map_bind, Outcome.map_map]
  congr 1
  funext r
  cases r.rest <;> rfl

end Descent.Parser
