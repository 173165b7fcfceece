import Descent.Parser.Primitive

namespace Descent.Parser

variable {α β γ : Type}

/-- The first alternative that succeeds; if none does, the failure tells only the description. -/
def choice (description : String) (alternatives : List (Parser α)) : Parser α :=
  alternatives.foldr orElse (never ⟨description, "no match"⟩)

def sequence (elements : List (Parser α)) : Parser (List α) :=
  elements.foldr (fun p rest => p.bind fun x => rest.map (x :: ·)) (always [])

def ignore (p : Parser α) : Parser Unit := p.replace ()

def optional (p : Parser α) (default : α) : Parser α := p.orElse (always default)

def between (opening : Parser α) (closing : Parser β) (p : Parser γ) : Parser γ :=
  (opening.keepRight p).keepLeft closing

@[simp] theorem choice_nil (description : String) :
    choice description ([] : List (Parser α)) = never ⟨description, "no match"⟩ := rfl

@[simp] theorem choice_cons (description : String) (p : Parser α) (ps : List (Parser α)) :
    choice description (p :: ps) = p.orElse (choice description ps) := rfl

@[simp] theorem sequence_nil : sequence ([] : List (Parser α)) = always [] := rfl

@[simp] theorem sequence_cons (p : Parser α) (ps : List (Parser α)) :
    sequence (p :: ps) = p.bind fun x => (sequence ps).map (x :: ·) := rfl

theorem run_sequence_cons (p : Parser α) (ps : List (Parser α)) (input : List Char) :
    (sequence (p :: ps)).run input = (p.run input).bind fun r =>
      ((sequence ps).run r.rest).map (Parsed.map (r.value :: ·)) := by
  simp only [sequence_cons, run_bind, run_map]

theorem run_optional (p : Parser α) (default : α) (input : List Char) :
    (p.optional default).run input = (p.run input).recover fun _ => .ok ⟨default, input⟩ := by
  simp only [optional, run_orElse, run_always]

end Descent.Parser
