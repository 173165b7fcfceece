import Descent.Proofs.Failure
import Descent.Proofs.Pairing

namespace Descent.Parser

variable {front text s : List Char}

/-- The longest common prefix of two texts. -/
def commonFront : List Char → List Char → List Char
  | c :: text, d :: s => if c = d then c :: commonFront text s else []
  | _, _ => []

theorem commonFront_nil (s : List Char) : commonFront [] s = [] := rfl

theorem commonFront_cons_same (c : Char) (text s : List Char) :
    commonFront (c :: text) (c :: s) = c :: commonFront text s := by
  rw [commonFront, if_pos rfl]

theorem commonFront_of_apart {c : Char} (text : List Char) (apart : ∀ d ∈ s.head?, d ≠ c) :
    commonFront (c :: text) s = [] := by
  cases s with
  | nil => rfl
  | cons d s => rw [commonFront, if_neg (apart d rfl).symm]

/-- Either the input goes on with the character or it does not. -/
theorem eq_cons_or_apart (c : Char) (s : List Char) :
    (∃ t, s = c :: t) ∨ ∀ d ∈ s.head?, d ≠ c := by
  cases s with
  | nil =>
      right
      intro d none
      cases none
  | cons d t =>
      by_cases same : d = c
      · left
        exact ⟨t, congrArg (· :: t) same⟩
      · right
        intro e first
        cases first
        exact same

theorem prefix_commonFront_iff : front <+: commonFront text s ↔ front <+: text ∧ front <+: s := by
  induction front generalizing text s with
  | nil => simp only [List.nil_prefix, and_self]
  | cons e front ih =>
      cases text with
      | nil => simp only [commonFront_nil, List.prefix_nil, reduceCtorEq, false_and]
      | cons c text =>
          rcases eq_cons_or_apart c s with ⟨t, rfl⟩ | apart
          · rw [commonFront_cons_same, List.cons_prefix_cons, List.cons_prefix_cons,
              List.cons_prefix_cons, ih, and_and_left]
          · rw [commonFront_of_apart text apart, List.prefix_nil, List.cons_prefix_cons]
            constructor
            · intro impossible
              cases impossible
            · rintro ⟨⟨rfl, _⟩, t, rfl⟩
              exact absurd rfl (apart e rfl)

theorem length_commonFront_eq_iff : (commonFront text s).length = text.length ↔ text <+: s := by
  have within : commonFront text s <+: text := (prefix_commonFront_iff.mp List.prefix_rfl).1
  constructor
  · intro full
    have whole : commonFront text s = text := within.eq_of_length full
    have both := prefix_commonFront_iff.mp (List.prefix_refl (commonFront text s))
    rw [whole] at both
    exact both.2
  · intro read
    have covers : text <+: commonFront text s := prefix_commonFront_iff.mpr ⟨List.prefix_rfl, read⟩
    exact Nat.le_antisymm within.length_le covers.length_le

theorem run_characters_cons_same (c : Char) (text s : List Char) :
    (sequence ((c :: text).map character)).run (c :: s) =
      ((sequence (text.map character)).run s).map (Parsed.map (c :: ·)) := by
  rw [List.map_cons, run_sequence_cons, run_character_cons]
  rfl

theorem run_characters_eq_fail_iff_of_apart {c : Char} (apart : ∀ d ∈ s.head?, d ≠ c)
    {error : Mismatch} :
    (sequence ((c :: text).map character)).run s = .fail error ↔ Misses c s error := by
  rw [List.map_cons, run_sequence_cons, Outcome.bind_eq_fail_iff, run_character_eq_fail_iff]
  apply or_iff_left
  rintro ⟨r, ok, _⟩
  rw [(run_character_eq_ok_iff.mp ok).1] at apart
  exact apart c rfl rfl

/-- The first character that is not there decides, and all in front of it are. -/
theorem run_characters_eq_fail_iff {error : Mismatch} :
    (sequence (text.map character)).run s = .fail error ↔
      ∃ c, text[(commonFront text s).length]? = some c ∧
        Misses c (s.drop (commonFront text s).length) error := by
  induction text generalizing s with
  | nil => simp
  | cons c text ih =>
      rcases eq_cons_or_apart c s with ⟨t, rfl⟩ | apart
      · rw [run_characters_cons_same, Outcome.map_eq_fail_iff, ih, commonFront_cons_same]
        rfl
      · rw [run_characters_eq_fail_iff_of_apart apart, commonFront_of_apart text apart]
        simp

theorem skipWhitespace_keepLeft_whitespace : skipWhitespace.keepLeft whitespace = skipWhitespace := by
  apply eq_iff_kind_run.mpr
  constructor
  · rfl
  · intro s
    simp only [run_keepLeft, run_skipWhitespace, run_whitespace, Outcome.bind, Outcome.map,
      List.dropWhile_idempotent]

theorem symbol_eq_literal (text : String) : symbol text = literal text := by
  rw [symbol, literal, keepLeft_keepLeft, skipWhitespace_keepLeft_whitespace]

theorem run_literal_eq_ok_iff {text : String} {r : Parsed String} :
    (literal text).run s = .ok r ↔
      (commonFront text.toList s).length = text.toList.length ∧
        r = ⟨text, (s.drop (commonFront text.toList s).length).dropWhile isBlank⟩ := by
  rw [← symbol_eq_literal, run_symbol_eq_ok_iff]
  constructor
  · rintro ⟨t, rfl, rfl⟩
    have full := length_commonFront_eq_iff.mpr (List.prefix_append text.toList t)
    rw [full, List.drop_left]
    exact ⟨rfl, rfl⟩
  · rintro ⟨full, rfl⟩
    obtain ⟨t, split⟩ := length_commonFront_eq_iff.mp full
    rw [full, ← split, List.drop_left]
    exact ⟨t, rfl, rfl⟩

theorem run_literal_eq_fail_iff {text : String} {error : Mismatch} :
    (literal text).run s = .fail error ↔
      ∃ c, text.toList[(commonFront text.toList s).length]? = some c ∧
        Misses c (s.drop (commonFront text.toList s).length) error := by
  rw [← symbol_eq_literal, run_symbol_eq_fail_iff, run_characters_eq_fail_iff]

theorem run_literal_ne_stalled (text : String) (s : List Char) :
    (literal text).run s ≠ .stalled :=
  (agree_literal (s.length + 1) text s (Nat.lt_succ_self _)).2

/-- A literal is read up to where the input departs from it. Their common front is what is a prefix of
both, and all that is. If it is as long as the literal, the literal is read, and the whitespace behind it
is skipped. If not, the report has the character of the literal behind the common front and what the
input has there, or that the input ends. One of the two is always the case, and a symbol is no different:
the second skip finds nothing. -/
theorem literal_reads_common_front (text : String) (s : List Char) :
    let k := (commonFront text.toList s).length
    (∀ front, front <+: commonFront text.toList s ↔ front <+: text.toList ∧ front <+: s) ∧
    (∀ r, (literal text).run s = .ok r ↔
      k = text.toList.length ∧ r = ⟨text, (s.drop k).dropWhile isBlank⟩) ∧
    (∀ error, (literal text).run s = .fail error ↔
      ∃ c, text.toList[k]? = some c ∧ Misses c (s.drop k) error) ∧
    (literal text).run s ≠ .stalled ∧
    symbol text = literal text := by
  intro k
  exact ⟨fun front => prefix_commonFront_iff, fun r => run_literal_eq_ok_iff,
    fun error => run_literal_eq_fail_iff, run_literal_ne_stalled text s, symbol_eq_literal text⟩

example : (literal "true").run "trap".toList = .fail ⟨"u", "a"⟩ := rfl

end Descent.Parser
