import Descent.Json.Display
import Descent.Proofs.Json.Delimited
import Descent.Proofs.Json.LastBinding
import Descent.Proofs.Json.Surroundings

namespace Descent.Json

abbrev WrittenEntry := Written (EntryText ValueText)

def objectText (inside : Gap) (entries : List WrittenEntry) (behind : Gap) : List Char :=
  enclosed '\x7b' '\x7d' inside (entries.map Written.text) behind

/-- Other entries to the same effect: some with pairwise different keys have changed places, or some
have been put in front of entries that have their keys. -/
inductive Edited : List WrittenEntry → List WrittenEntry → Prop
  | permuted {front entries entries' back : List WrittenEntry} (perm : entries.Perm entries')
      (different : (entries.map (·.meaning.1)).Nodup) :
      Edited (front ++ entries ++ back) (front ++ entries' ++ back)
  | inserted {front extra back : List WrittenEntry}
      (replaced : ∀ entry ∈ extra, ∃ later ∈ back, later.meaning.1 = entry.meaning.1) :
      Edited (front ++ back) (front ++ extra ++ back)

theorem Edited.ofBindings_eq {entries entries' : List WrittenEntry} (edited : Edited entries entries') :
    Entries.ofBindings (entries.map Written.meaning) =
      Entries.ofBindings (entries'.map Written.meaning) := by
  cases edited with
  | permuted perm different =>
      simp only [List.map_append]
      apply Entries.ofBindings_permuted _ _ (perm.map Written.meaning)
      rw [List.map_map]
      exact different
  | @inserted front extra back replaced =>
      simp only [List.map_append]
      apply (Entries.ofBindings_inserted _ _).symm
      intro binding member
      rcases List.mem_map.mp member with ⟨entry, present, rfl⟩
      rcases replaced entry present with ⟨later, follows, same⟩
      exact ⟨later.meaning, List.mem_map_of_mem follows, same⟩

theorem valueText_objectText (inside : Gap) (entries : List WrittenEntry) (behind : Gap) :
    ValueText (objectText inside entries behind)
      (.object (Entries.ofBindings (entries.map Written.meaning))) :=
  .object (enclosedText_written _ _ inside entries behind) (Entries.collects_ofBindings _)

theorem exists_entries_of_valueText {s : List Char} {object : Entries Json}
    (value : ValueText s (.object object)) :
    ∃ inside entries behind, s = objectText inside entries behind ∧
      object = Entries.ofBindings (entries.map Written.meaning) := by
  cases value with
  | object text last =>
      rcases enclosedText_iff_written.mp text with ⟨inside, entries, behind, rfl, rfl⟩
      exact ⟨inside, entries, behind, rfl, last.eq_ofBindings⟩

/-- Every text that is read as an object is written as entries, and the object has the keys of the
entries, each once and in ascending order, each with the value that the last entry of the key gives it.
Wherever it stands in a document, entries with pairwise different keys may change places and entries may
be put in front of others with the same keys: the document is read with the same meaning, and so shown
as the same text. Every object in what a document means stands at such a place. -/
theorem object_means_last_bindings :
    (∀ s r, Grammar.object.run s = .ok r → ∃ inside entries behind,
      s = objectText inside entries behind ++ r.rest) ∧
    (∀ inside entries behind t, ∃ object,
      Grammar.object.run (objectText inside entries behind ++ t) =
        .ok ⟨object, t.dropWhile isBlank⟩ ∧
      object.Ascending ∧
      (∀ key, key ∈ object.map Prod.fst ↔ key ∈ entries.map (·.meaning.1)) ∧
      ∀ key v, (key, v) ∈ object ↔ Entries.LastBinding (entries.map Written.meaning) key v) ∧
    (∀ (around : Around) inside entries entries' behind, Edited entries entries' → ∃ v,
      read (String.ofList (around.fill (objectText inside entries behind))) = .ok v ∧
      read (String.ofList (around.fill (objectText inside entries' behind))) = .ok v ∧
      (read (String.ofList (around.fill (objectText inside entries' behind)))).map display =
        .ok v.display) ∧
    ∀ text v object, read text = .ok v → Part (.object object) v →
      ∃ (around : Around) (inside : Gap) (entries : List WrittenEntry) (behind : Gap),
        text.toList = around.fill (objectText inside entries behind) ∧
        object = Entries.ofBindings (entries.map Written.meaning) := by
  refine ⟨?_, ?_, ?_, ?_⟩
  · intro s r ok
    rcases Grammar.object_reads s r ok with ⟨text, split, value⟩
    rcases exists_entries_of_valueText value with ⟨inside, entries, behind, rfl, _⟩
    exact ⟨inside, entries, behind, split⟩
  · intro inside entries behind t
    have keys : entries.map (·.meaning.1) = (entries.map Written.meaning).map Prod.fst :=
      List.map_map.symm
    refine ⟨_, Grammar.run_object (valueText_objectText inside entries behind) t,
      Entries.ascending_ofBindings _, ?_, fun key v => Entries.mem_ofBindings_iff⟩
    intro key
    rw [keys]
    exact Entries.key_mem_ofBindings_iff
  · intro around inside entries entries' behind edited
    have before := around.read_fill (valueText_objectText inside entries behind)
    have after := around.read_fill (valueText_objectText inside entries' behind)
    rw [← edited.ofBindings_eq] at after
    exact ⟨_, before, after, by rw [after]; rfl⟩
  · intro text v object accepted inner
    have document : DocumentText text.toList v := Grammar.documentText_of_parse accepted
    generalize text.toList = u at document
    rcases document with @⟨w, s, _, blanks, value⟩
    rcases exists_around_of_part (.document ⟨w, blanks⟩) value inner with
      ⟨around, t, same, shape⟩
    rcases exists_entries_of_valueText shape with ⟨inside, entries, behind, rfl, meaning⟩
    exact ⟨around, inside, entries, behind, same, meaning⟩

/-- In front of a key that is written with an escape, the same key stands as it is. -/
theorem object_means_last_bindings_of_escaped_key :
    ∃ v, read "[\x7b\"a\\tb\":true\x7d]" = .ok v ∧
      read "[\x7b\"a\tb\":false,\"a\\tb\":true\x7d]" = .ok v := by
  have plain : StringText "\"a\tb\"".toList "a\tb" :=
    .mk (.plain (by decide) (by decide) (.plain (by decide) (by decide)
      (.plain (by decide) (by decide) .close))) blanks_nil
  have escaped : StringText "\"a\\tb\"".toList "a\tb" :=
    .mk (.plain (by decide) (by decide) (.escape rfl (.plain (by decide) (by decide) .close)))
      blanks_nil
  let replaced : WrittenEntry := ⟨Gap.empty, _, _, .mk plain blanks_nil (.boolean (.no blanks_nil))⟩
  let last : WrittenEntry := ⟨Gap.empty, _, _, .mk escaped blanks_nil (.boolean (.yes blanks_nil))⟩
  let around := Around.item (.document Gap.empty) Gap.empty [] Gap.empty [] Gap.empty
  have edited : Edited ([] ++ [last]) ([] ++ [replaced] ++ [last]) :=
    .inserted (List.forall_mem_singleton.mpr ⟨last, List.mem_singleton_self last, rfl⟩)
  rcases object_means_last_bindings.2.2.1 around Gap.empty _ _ Gap.empty edited with
    ⟨v, before, after, _⟩
  exact ⟨v, before, after⟩

end Descent.Json
