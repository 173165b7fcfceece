import Descent.Parser.Token
import Descent.Proofs.Progress

/-!
An equation between parsers says that they are known in advance to the same extent and that they come to
the same on every input, so each law holds however much of it is settled while the parsers are built.
-/

namespace Descent.Parser

variable {α β γ : Type}

theorem eq_iff_kind_run {p q : Parser α} :
    p = q ↔ p.kind = q.kind ∧ ∀ s, p.run s = q.run s := by
  constructor
  · intro same
    rw [same]
    exact ⟨rfl, fun s => rfl⟩
  · rintro ⟨form, runs⟩
    match p, q, form with
    | always value, always value', _ =>
        have reading : Outcome.ok (Parsed.mk value []) = Outcome.ok (Parsed.mk value' []) := runs []
        cases reading
        rfl
    | never error, never error', _ =>
        have failure : Outcome.fail error = (Outcome.fail error' : Outcome (Parsed α)) := runs []
        cases failure
        rfl
    | step run, step run', _ => exact congrArg step (funext runs)

theorem bind_always (p : Parser α) : p.bind always = p := by
  cases p with
  | always value => rfl
  | never error => rfl
  | step run =>
      apply congrArg step
      funext s
      calc
        _ = (run s).map id := Outcome.bind_ok (run s) id
        _ = run s := Outcome.map_id (run s)

theorem bind_assoc (p : Parser α) (f : α → Parser β) (g : β → Parser γ) :
    (p.bind f).bind g = p.bind fun x => (f x).bind g := by
  cases p with
  | always value => rfl
  | never error => rfl
  | step run =>
      apply congrArg step
      funext s
      simp only [Outcome.bind_assoc, run_bind]

theorem map_id (p : Parser α) : p.map id = p := by
  rw [map_eq_bind]
  exact bind_always p

theorem map_map (h : α → β) (k : β → γ) (p : Parser α) : (p.map h).map k = p.map (k ∘ h) := by
  simp only [map_eq_bind, bind_assoc]
  rfl

theorem map_bind (h : β → γ) (p : Parser α) (f : α → Parser β) :
    (p.bind f).map h = p.bind fun x => (f x).map h := by
  simp only [map_eq_bind, bind_assoc]

theorem bind_map (h : α → β) (p : Parser α) (f : β → Parser γ) :
    (p.map h).bind f = p.bind fun x => f (h x) := by
  rw [map_eq_bind, bind_assoc]
  rfl

theorem kind_map (h : α → β) (p : Parser α) : (p.map h).kind = p.kind := by
  cases p <;> rfl

theorem map_eq_always_iff {h : α → β} {p : Parser α} {b : β} :
    p.map h = always b ↔ ∃ a, p = always a ∧ h a = b := by
  cases p <;> simp [map, bind]

theorem map_eq_never_iff {h : α → β} {p : Parser α} {error : Mismatch} :
    p.map h = never error ↔ p = never error := by
  cases p <;> simp [map, bind]

instance : LawfulMonad Parser :=
  LawfulMonad.mk' Parser map_id (fun _ _ => rfl) bind_assoc (fun _ _ => rfl) (fun _ _ => rfl)
    (fun _ _ => rfl) (fun f p => (map_eq_bind f p).symm) (fun _ _ => rfl)

/-- Whether a continuation is called while the parser is built, when it runs or not at all, the order
in which steps are joined makes no difference, neither to the form of the whole nor to any run. -/
theorem bind_laws (x : α) (p : Parser α) (f : α → Parser β) (g : β → Parser γ) (h : α → β)
    (k : β → γ) :
    (always x).bind f = f x ∧ p.bind always = p ∧
      (p.bind f).bind g = (p.bind fun a => (f a).bind g) ∧
      p.map h = (p.bind fun a => always (h a)) ∧ p.map id = p ∧ (p.map h).map k = p.map (k ∘ h) :=
  ⟨rfl, bind_always p, bind_assoc p f g, map_eq_bind h p, map_id p, map_map h k p⟩

theorem orElse_assoc (p q r : Parser α) : (p.orElse q).orElse r = p.orElse (q.orElse r) := by
  cases p with
  | always value => rfl
  | never error => rfl
  | step run =>
      apply congrArg step
      funext s
      simp only [Outcome.recover_assoc, run_orElse]

theorem run_orElse_of_not_refuses {p : Parser α} {s : List Char} (kept : ¬Refuses p s)
    (q : Parser α) : (p.orElse q).run s = p.run s := by
  rw [run_orElse]
  cases ran : p.run s with
  | ok r => rfl
  | fail error => exact absurd ⟨error, ran⟩ kept
  | stalled => rfl

/-- What both alternatives start with is read once, even if the first of them fails behind it. -/
theorem bind_orElse_bind (p : Parser α) (f g : α → Parser β) :
    (p.bind f).orElse (p.bind g) = p.bind fun x => (f x).orElse (g x) := by
  cases p with
  | always value => rfl
  | never error => rfl
  | step run =>
      apply congrArg step
      funext s
      simp only [run_orElse]
      exact Outcome.recover_bind (run s) _ _

theorem keepRight_orElse_keepRight (p : Parser α) (q r : Parser β) :
    (p.keepRight q).orElse (p.keepRight r) = p.keepRight (q.orElse r) := by
  simp only [keepRight_eq_bind]
  exact bind_orElse_bind p (fun _ => q) fun _ => r

/-- An alternation with its parentheses. -/
inductive Alternation (α : Type) where
  | single (p : Parser α)
  | either (left right : Alternation α)

namespace Alternation

def parser : Alternation α → Parser α
  | single p => p
  | either left right => left.parser.orElse right.parser

def members : Alternation α → List (Parser α)
  | single p => [p]
  | either left right => left.members ++ right.members

theorem orElse_eq_foldl_members (t : Alternation α) (p : Parser α) :
    p.orElse t.parser = t.members.foldl orElse p := by
  induction t generalizing p with
  | single q => rfl
  | either left right left_ih right_ih =>
      calc
        p.orElse (left.parser.orElse right.parser)
            = (p.orElse left.parser).orElse right.parser := (orElse_assoc p _ _).symm
        _ = right.members.foldl orElse (p.orElse left.parser) := right_ih _
        _ = right.members.foldl orElse (left.members.foldl orElse p) := by rw [left_ih]
        _ = (left.members ++ right.members).foldl orElse p := List.foldl_append.symm

theorem parser_eq_of_members_eq {t u : Alternation α} (same : t.members = u.members) :
    t.parser = u.parser := by
  -- A parser that never succeeds leaves an alternation behind it as it is, whatever its error.
  have error : Mismatch := ⟨"", ""⟩
  calc
    t.parser = t.members.foldl orElse (never error) := orElse_eq_foldl_members t (never error)
    _ = u.members.foldl orElse (never error) := by rw [same]
    _ = u.parser := (orElse_eq_foldl_members u (never error)).symm

theorem exists_member_run_eq (t : Alternation α) (s : List Char) :
    ∃ front p back, t.members = front ++ p :: back ∧ (∀ q ∈ front, Refuses q s) ∧
      (Refuses p s → back = []) ∧ t.parser.run s = p.run s := by
  induction t with
  | single p => exact ⟨[], p, [], rfl, List.forall_mem_nil _, fun _ => rfl, rfl⟩
  | either left right left_ih right_ih =>
      obtain ⟨front, p, back, split, refuse, last, same⟩ := left_ih
      by_cases refuses : Refuses p s
      · obtain ⟨front', q, back', split', refuse', last', same'⟩ := right_ih
        have shape : (either left right).members = (front ++ p :: front') ++ q :: back' := by
          rw [members, split, split', last refuses]
          simp
        have failed : Refuses left.parser s := by
          rw [Refuses, same]
          exact refuses
        have before : ∀ member ∈ front ++ p :: front', Refuses member s :=
          List.forall_mem_append.mpr ⟨refuse, List.forall_mem_cons.mpr ⟨refuses, refuse'⟩⟩
        exact ⟨_, q, back', shape, before, last', (failed.run_orElse right.parser).trans same'⟩
      · have shape : (either left right).members = front ++ p :: (back ++ right.members) := by
          rw [members, split]
          simp
        have kept : ¬Refuses left.parser s := by
          rw [Refuses, same]
          exact refuses
        have run := (run_orElse_of_not_refuses kept right.parser).trans same
        exact ⟨front, p, _, shape, refuse, fun impossible => absurd impossible refuses, run⟩

end Alternation

/-- Parentheses do not matter to an alternation. On every input it comes to what the first of its
members that does not fail comes to on the same input, and if all fail, to what the last one fails with.
A common first part may be put in front of an alternation, however far it reads. -/
theorem alternation_laws (p q r : Parser α) (t u : Alternation α) (same : t.members = u.members)
    (a : Parser β) (f g : β → Parser α) :
    (p.orElse q).orElse r = p.orElse (q.orElse r) ∧ t.parser = u.parser ∧
      (∀ s, ∃ front first back, t.members = front ++ first :: back ∧
        (∀ member ∈ front, Refuses member s) ∧ (Refuses first s → back = []) ∧
        t.parser.run s = first.run s) ∧
      (a.bind f).orElse (a.bind g) = (a.bind fun x => (f x).orElse (g x)) ∧
      (a.keepRight q).orElse (a.keepRight r) = a.keepRight (q.orElse r) :=
  ⟨orElse_assoc p q r, Alternation.parser_eq_of_members_eq same, t.exists_member_run_eq,
    bind_orElse_bind a f g, keepRight_orElse_keepRight a q r⟩

/-- Two members start with the same letter. The second is tried although the first has read it, and
when both fail, what they have read is not in the report. -/
theorem alternation_laws_of_common_letter :
    let ab := (character 'a').keepRight (character 'b')
    let ac := (character 'a').keepRight (character 'c')
    let t : Alternation Char := .either (.either (.single ab) (.single ac)) (.single digit)
    let u : Alternation Char := .either (.single ab) (.either (.single ac) (.single digit))
    t.members = u.members ∧ t.parser = u.parser ∧ t.parser.run "acd".toList = .ok ⟨'c', ['d']⟩ ∧
      t.parser.run "ad".toList = .fail ⟨"digit", "a"⟩ ∧
      ab.orElse ac = (character 'a').keepRight ((character 'b').orElse (character 'c')) := by
  intro ab ac t u
  have laws := alternation_laws (character 'b') (character 'b') (character 'c') t u rfl (character 'a')
    (fun _ => character 'b') fun _ => character 'c'
  exact ⟨rfl, laws.2.1, rfl, rfl, laws.2.2.2.2⟩

end Descent.Parser
