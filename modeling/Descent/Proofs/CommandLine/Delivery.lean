import Descent.CommandLine.Report
import Descent.Proofs.Json.Failure

namespace Descent.Json

open Descent.Parser

theorem mem_of_run_value {s t : List Char} {v : Json} {c : Char}
    (read : Grammar.value.run (s.dropWhile isBlank) = .ok ⟨v, c :: t⟩) : c ∈ s := by
  obtain ⟨taken, split, _⟩ := Grammar.takes_value _ _ read
  have member : c ∈ s.dropWhile isBlank := by
    rw [split]
    exact List.mem_append_right taken List.mem_cons_self
  exact (List.dropWhile_suffix isBlank).subset member

theorem document_parse_ends (s : List Char) : Grammar.document.parse s ≠ .stalled := by
  have ends := (Grammar.agree_document (s.length + 1) s (Nat.lt_succ_self _)).2
  rw [parse_eq]
  cases ran : Grammar.document.run s with
  | fail error => simp [Outcome.bind]
  | stalled => exact absurd ran ends
  | ok r =>
      obtain ⟨v, rest⟩ := r
      cases rest <;> simp [Outcome.bind]

/-- The two reports about a text that is not a document. -/
inductive Reported (s : List Char) : Mismatch → Prop
  | noValue : Reported s ⟨"JSON value", "no match"⟩
  | leftOver {c : Char} (member : c ∈ s) (solid : isBlank c = false) :
      Reported s ⟨"end of input", c.toString⟩

theorem document_parse_cases (s : List Char) :
    (∃ v, Grammar.document.parse s = .ok v) ∨
      ∃ error, Grammar.document.parse s = .fail error ∧ Reported s error := by
  cases parsed : Grammar.document.parse s with
  | ok v => exact Or.inl ⟨v, rfl⟩
  | stalled => exact absurd parsed (document_parse_ends s)
  | fail error =>
      refine Or.inr ⟨error, rfl, ?_⟩
      rcases Grammar.parse_document_eq_fail_iff.mp parsed with
        ⟨rfl, _⟩ | ⟨v, c, t, read, solid, rfl⟩
      · exact .noValue
      · exact .leftOver (mem_of_run_value read) solid

end Descent.Json

namespace Descent.CommandLine

variable {m : Type → Type} {host : Host m} {setting : Option String}

theorem ofArgument_of_head? {argument : String} (other : argument.toList.head? ≠ some '-') :
    Word.ofArgument argument = .plain argument := by
  unfold Word.ofArgument
  split
  · next same => exact absurd (congrArg List.head? same) other
  · next same => exact absurd (congrArg List.head? same) other
  · next same => exact absurd (congrArg List.head? same) other
  · rfl

theorem parse_single {argument : String} (other : argument.toList.head? ≠ some '-') :
    Arguments.parse [argument] = .ok ⟨some argument, none⟩ := by
  simp [Arguments.parse, Arguments.ofWords, ofArgument_of_head? other, Arguments.ofParts]

theorem parse_ended (argument : String) :
    Arguments.parse ["--", argument] = .ok ⟨some argument, none⟩ := rfl

theorem parse_file {path : String} (named : path ≠ "") :
    Arguments.parse ["--file=" ++ path] = .ok ⟨none, some path⟩ := by
  have letters : ("--file=" ++ path).toList = '-' :: '-' :: ("file=".toList ++ path.toList) := by
    rw [String.toList_append]
    rfl
  have word : Word.ofArgument ("--file=" ++ path) = .file (some path) := by
    simp [Word.ofArgument, letters, Word.ofLong]
  simp [Arguments.parse, Arguments.ofWords, word, Arguments.ofParts, named]

theorem fromUTF8?_toUTF8 (text : String) : String.fromUTF8? text.toUTF8 = some text :=
  dif_pos text.isValidUTF8

theorem toUTF8_of_fromUTF8? {bytes : ByteArray} {text : String}
    (decoded : String.fromUTF8? bytes = some text) : text.toUTF8 = bytes := by
  unfold String.fromUTF8? at decoded
  split at decoded
  · cases decoded
    rfl
  · cases decoded

theorem decoded_toUTF8 (text : String) : decoded (.ok text.toUTF8) = .ok text := by
  simp only [decoded, Except.bind, fromUTF8?_toUTF8]

theorem decoded_unreadable {contents : Except ReadFault ByteArray}
    (unreadable : ∀ text : String, contents ≠ .ok text.toUTF8) :
    ∃ fault, decoded contents = .error fault := by
  cases contents with
  | error fault => exact ⟨fault, rfl⟩
  | ok bytes =>
      cases found : String.fromUTF8? bytes with
      | some text =>
          rw [← toUTF8_of_fromUTF8? found] at unreadable
          exact absurd rfl (unreadable text)
      | none => exact ⟨.notText, by simp only [decoded, Except.bind, found]⟩

theorem indented_of_one_line {text : String} (line : '\n' ∉ text.toList) :
    indented text = "    " ++ text := by
  have same : text.toList.flatMap (fun c => if c = '\n' then "\n    ".toList else [c]) =
      text.toList.flatMap fun c => [c] := by
    apply List.flatMap_congr
    intro c member
    apply if_neg
    intro newline
    rw [newline] at member
    exact line member
  rw [indented, same, List.flatMap_singleton', String.ofList_toList]

theorem reported_message {s : List Char} {error : Mismatch} (reported : Json.Reported s error) :
    error.message = "expected JSON value, found no match" ∨
      ∃ c ∈ s, isBlank c = false ∧
        error.message = "expected end of input, found " ++ c.toString := by
  cases reported with
  | noValue => exact Or.inl rfl
  | @leftOver c member solid => exact Or.inr ⟨c, member, solid, rfl⟩

/-- A line break is a blank, so none can be what is left. -/
theorem message_one_line {s : List Char} {error : Mismatch} (reported : Json.Reported s error) :
    '\n' ∉ error.message.toList := by
  cases reported with
  | noValue => decide
  | @leftOver c member solid =>
      have shape : (Mismatch.mk "end of input" c.toString).message.toList =
          "expected end of input, found ".toList ++ [c] := by
        simp [Mismatch.message]
      rw [shape, List.mem_append, List.mem_singleton]
      rintro (inside | rfl)
      · exact absurd inside (by decide)
      · exact absurd solid (by decide)

theorem ofOutcome_of_ok (host : Host m) {text : String} {v : Json}
    (ok : Json.Grammar.document.parse text.toList = .ok v) :
    host.ofOutcome (Json.read text) = ⟨0, String.ofList v.display ++ "\n", ""⟩ := by
  rw [Json.read, ok]
  rfl

section Layout

variable (layout : ∀ context cause,
  host.layout context cause = context ++ "\n\nCaused by:\n" ++ indented cause)

include layout

theorem failure_unread (path cause : String) :
    host.failure ("failed to read " ++ path) cause = ⟨1, "", "Error: failed to read " ++ path ++
      "\n\nCaused by:\n" ++ indented cause ++ "\n"⟩ := by
  simp only [Host.failure, layout, ← String.append_assoc]
  rfl

theorem ofOutcome_of_reported {text : String} {error : Mismatch}
    (failed : Json.Grammar.document.parse text.toList = .fail error)
    (reported : Json.Reported text.toList error) :
    host.ofOutcome (Json.read text) =
      ⟨1, "", "Error: input is not valid JSON\n\nCaused by:\n    " ++ error.message ++ "\n"⟩ := by
  have cause := indented_of_one_line (message_one_line reported)
  rw [Json.read, failed, Host.ofOutcome, Host.failure, layout, cause]
  simp only [← String.append_assoc]
  rfl

/-- The context alone tells the two failures apart. -/
theorem answer_ne_unread (text path cause : String) :
    host.ofOutcome (Json.read text) ≠ ⟨1, "", "Error: failed to read " ++ path ++
      "\n\nCaused by:\n" ++ cause ++ "\n"⟩ := by
  intro same
  rcases Json.document_parse_cases text.toList with ⟨v, ok⟩ | ⟨error, failed, reported⟩
  · rw [ofOutcome_of_ok host ok] at same
    exact Nat.zero_ne_one (congrArg Report.code same)
  · rw [ofOutcome_of_reported layout failed reported] at same
    have errors := congrArg (fun report => report.errors.toList) same
    simp at errors

end Layout

variable [Monad m]

theorem run_of_text {given : List String} {text : String} {file : Option String}
    (delivered : host.arguments given = .ok ⟨some text, file⟩) :
    host.run setting given = host.ofText setting text := by
  rw [Host.run, delivered]

theorem run_of_file {named : List String} {path : String}
    (pointed : host.arguments named = .ok ⟨none, some path⟩) :
    host.run setting named = host.readFile path >>= host.ofContents setting path := by
  rw [Host.run, pointed]

theorem ofContents_toUTF8 (host : Host m) (setting : Option String) (path text : String) :
    host.ofContents setting path (.ok text.toUTF8) = host.ofText setting text := by
  rw [Host.ofContents, decoded_toUTF8]

/-- Parsing has nothing to tell that is as severe as a warning. -/
theorem warn_lt_verbosity (event : Event) : Level.warn.verbosity < event.level.verbosity := by
  cases event with
  | dropped error => exact (by decide : 1 < 4)
  | succeeded length => exact (by decide : 1 < 3)
  | failed length error => exact (by decide : 1 < 3)

section Silence

variable [LawfulMonad m] (unset : setting.bind host.filter? = none)
  (warnings : ∀ event, host.filter "warn" event = true →
    event.level.verbosity ≤ Level.warn.verbosity)

include unset warnings

theorem log_silent (happened : List Event) : host.log setting happened = pure "" := by
  have nothing : happened.filter (host.passes setting) = [] := by
    apply List.filter_eq_nil_iff.mpr
    intro event _ passes
    rw [Host.passes, unset] at passes
    exact Nat.not_le_of_lt (warn_lt_verbosity event) (warnings event passes)
  rw [Host.log, nothing, List.mapM_nil, pure_bind]
  rfl

theorem ofText_silent (text : String) :
    host.ofText setting text = pure (host.ofOutcome (Json.read text)) := by
  rw [Host.ofText, log_silent unset warnings, map_pure, Report.behind, String.empty_append]

end Silence

/-- Whatever is logged, the exit code and the output are those of the text, and the errors of the text
stand behind the log: no error at all where the text is a document, otherwise a failure with one line
of cause. A file is answered as its text is. One without a text is never answered as if it had one.
Where no setting is made that is of use, nothing is logged. -/
theorem answer_of_delivery [LawfulMonad m] (host : Host m)
    (layout : ∀ context cause,
      host.layout context cause = context ++ "\n\nCaused by:\n" ++ indented cause)
    (warnings : ∀ event, host.filter "warn" event = true →
      event.level.verbosity ≤ Level.warn.verbosity)
    {text path : String} {given named : List String}
    (delivered : host.arguments given = .ok ⟨some text, none⟩)
    (pointed : host.arguments named = .ok ⟨none, some path⟩) :
    let outcome := Json.read text
    let report := host.ofOutcome outcome
    (∀ setting,
      host.run setting given =
        report.behind <$> host.log setting (events (host.dropped text) text outcome) ∧
      host.run setting named = host.readFile path >>= host.ofContents setting path ∧
      host.ofContents setting path (.ok text.toUTF8) = host.run setting given ∧
      (∀ contents, (∀ other : String, contents ≠ .ok other.toUTF8) →
        ∃ unread : Report, host.ofContents setting path contents = pure unread ∧
          (∃ fault : ReadFault, unread = ⟨1, "", "Error: failed to read " ++ path ++
            "\n\nCaused by:\n" ++ indented fault.message ++ "\n"⟩) ∧
          ∀ other, unread ≠ host.ofOutcome (Json.read other)) ∧
      (setting.bind host.filter? = none → host.run setting given = pure report)) ∧
    (∀ v, Json.Grammar.document.parse text.toList = .ok v →
      report = ⟨0, String.ofList v.display ++ "\n", ""⟩) ∧
    ((∀ v, Json.Grammar.document.parse text.toList ≠ .ok v) →
      ∃ cause, report = ⟨1, "", "Error: input is not valid JSON\n\nCaused by:\n    " ++ cause ++ "\n"⟩ ∧
        (cause = "expected JSON value, found no match" ∨
          ∃ c ∈ text.toList, isBlank c = false ∧
            cause = "expected end of input, found " ++ c.toString) ∧
        '\n' ∉ cause.toList) := by
  intro outcome report
  refine ⟨?_, ?_, ?_⟩
  · intro setting
    refine ⟨run_of_text delivered, run_of_file pointed, ?_, ?_, ?_⟩
    · rw [ofContents_toUTF8, run_of_text delivered]
    · intro contents unreadable
      obtain ⟨fault, failed⟩ := decoded_unreadable unreadable
      refine ⟨host.failure ("failed to read " ++ path) fault.message, ?_, ⟨fault, ?_⟩, ?_⟩
      · rw [Host.ofContents, failed]
      · exact failure_unread layout path fault.message
      · intro other
        rw [failure_unread layout]
        exact (answer_ne_unread layout other path _).symm
    · intro unset
      rw [run_of_text delivered, ofText_silent unset warnings]
  · intro v ok
    exact ofOutcome_of_ok host ok
  · intro none
    rcases Json.document_parse_cases text.toList with ⟨v, ok⟩ | ⟨error, failed, reported⟩
    · exact absurd ok (none v)
    · exact ⟨error.message, ofOutcome_of_reported layout failed reported,
        reported_message reported, message_one_line reported⟩

theorem plain_arguments {readFile : String → m (Except ReadFault ByteArray)} {given : List String}
    {arguments : Arguments} (parsed : Arguments.parse given = .ok arguments) :
    (Host.plain readFile).arguments given = .ok arguments :=
  congrArg (Except.mapError Ending.report) parsed

/-- A document with a wide blank behind it as an argument and in a file, and bytes that are no text. -/
theorem answer_of_delivery_in_directory :
    let text := "[true, \"x\"]\u3000"
    let host : Host Id := .plain fun path =>
      if path = "a.json" then .ok text.toUTF8 else .ok ⟨#[0xff]⟩
    host.run none [text] = pure ⟨0, "[true,\"x\"]\n", ""⟩ ∧
      host.run none ["--file=a.json"] = host.run none [text] ∧
      (∃ cause, host.run none ["--", "true-"] = pure ⟨1, "",
          "Error: input is not valid JSON\n\nCaused by:\n    " ++ cause ++ "\n"⟩ ∧
        '\n' ∉ cause.toList) ∧
      ∃ unread : Report, host.run none ["--file=b.json"] = pure unread ∧
        ∀ other, unread ≠ host.ofOutcome (Json.read other) := by
  intro text host
  have layout : ∀ context cause,
      host.layout context cause = context ++ "\n\nCaused by:\n" ++ indented cause :=
    fun _ _ => rfl
  have warnings : ∀ event, host.filter "warn" event = true →
      event.level.verbosity ≤ Level.warn.verbosity := fun _ => of_decide_eq_true
  have alone : host.arguments [text] = .ok ⟨some text, none⟩ :=
    plain_arguments (parse_single (by decide))
  have behind : host.arguments ["--", "true-"] = .ok ⟨some "true-", none⟩ :=
    plain_arguments (parse_ended "true-")
  have first : host.arguments ["--file=a.json"] = .ok ⟨none, some "a.json"⟩ :=
    plain_arguments (parse_file (by decide : "a.json" ≠ ""))
  have second : host.arguments ["--file=b.json"] = .ok ⟨none, some "b.json"⟩ :=
    plain_arguments (parse_file (by decide : "b.json" ≠ ""))
  have read : Json.Grammar.document.parse "[true, \"x\"]\u3000".toList =
      .ok (.array [.boolean true, .string "x"]) := rfl
  have rejected : Json.Grammar.document.parse "true-".toList = .fail ⟨"end of input", "-"⟩ := rfl
  have undecoded : String.fromUTF8? ⟨#[0xff]⟩ = none := by decide
  obtain ⟨onDocument, shown, _⟩ := answer_of_delivery host layout warnings alone first
  obtain ⟨onOther, _, refused⟩ := answer_of_delivery host layout warnings behind second
  obtain ⟨_, opened, same, _, quiet⟩ := onDocument none
  obtain ⟨_, opened', _, unread, quiet'⟩ := onOther none
  refine ⟨?_, ?_, ?_, ?_⟩
  · rw [quiet rfl, shown _ read]
    rfl
  · rw [opened]
    exact same
  · obtain ⟨cause, answer, _, line⟩ := refused fun v ok => by
      rw [rejected] at ok
      cases ok
    exact ⟨cause, by rw [quiet' rfl, answer], line⟩
  · obtain ⟨report, answer, _, apart⟩ := unread (.ok ⟨#[0xff]⟩) fun other same => by
      have decoded := fromUTF8?_toUTF8 other
      rw [← Except.ok.inj same, undecoded] at decoded
      cases decoded
    refine ⟨report, ?_, apart⟩
    rw [opened']
    exact answer

/-- The log as it is written without colours. A setting may be the name of a level. -/
def Host.logging (host : Host m) (clock : m String) : Host m :=
  { host with
    filter? := fun setting =>
      let levels := [("error", Level.error), ("warn", .warn), ("info", .info), ("debug", .debug),
        ("trace", .trace)]
      (levels.lookup setting).map fun level event =>
        decide (event.level.verbosity ≤ level.verbosity)
    line := fun event => do
      let told := match event with
        | .dropped error =>
          "TRACE parsley::parser::combinators: alternative failed, backtracking error=" ++
            error.message
        | .succeeded length => "DEBUG parsley::parser: parse succeeded len=" ++ toString length
        | .failed length error =>
          "DEBUG parsley::parser: parse failed len=" ++ toString length ++ " error=" ++ error.message
      return (← clock) ++ " " ++ told ++ "\n" }

/-- With a setting for debug messages a document does not leave the errors empty, and a number with a
minus is taken for an option. -/
theorem logged_and_hyphenated :
    let noFile (_ : String) : Id (Except ReadFault ByteArray) :=
      .error (.refused "No such file or directory" 2)
    let host : Host Id :=
      { (Host.plain noFile).logging (pure "2026-01-01T00:00:00.000000Z") with
        dropped := fun _ => [⟨"-", "t"⟩, ⟨"0", "t"⟩, ⟨"digit", "t"⟩] }
    (Json.Grammar.document.parse "true".toList = .ok (.boolean true) ∧
      host.arguments ["true"] = .ok ⟨some "true", none⟩ ∧
      Id.run (host.run (some "debug") ["true"]) = ⟨0, "true\n",
        "2026-01-01T00:00:00.000000Z DEBUG parsley::parser: parse succeeded len=4\n"⟩ ∧
      Id.run (host.run (some "debug") ["true"]) ≠ ⟨0, "true\n", ""⟩) ∧
    (∃ v, Json.Grammar.document.parse "-23.4".toList = .ok v) ∧
      (Id.run (host.run none ["-23.4"])).code = 2 := by
  intro noFile host
  have logged : Id.run (host.run (some "debug") ["true"]) = ⟨0, "true\n",
      "2026-01-01T00:00:00.000000Z DEBUG parsley::parser: parse succeeded len=4\n"⟩ := by
    have delivered : host.arguments ["true"] = .ok ⟨some "true", none⟩ := rfl
    rw [run_of_text delivered, Host.ofText]
    rfl
  have refused : (Id.run (host.run none ["-23.4"])).code = 2 := by decide +kernel
  refine ⟨⟨rfl, rfl, logged, ?_⟩, ⟨_, rfl⟩, refused⟩
  rw [logged]
  decide

end Descent.CommandLine
