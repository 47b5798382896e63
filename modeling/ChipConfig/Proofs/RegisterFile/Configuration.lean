import ChipConfig.Proofs.Listing.Outcome
import ChipConfig.Proofs.RegisterFile

/-!
# What a configuration is read as

A configuration is read as a whole or refused, whatever its text, its width and the radix of its
words.  The two policies differ in what they accept, but a configuration that both of them accept
is one register file.  What cannot be read is reported before what does not fit.
-/

namespace ChipConfig.RegisterFile

open Listing

variable {text : String} {width : Width} {options : ParseOptions}

theorem parse_eq_error_iff {error : ListingError} :
    parse text width options = .error error ↔
      load .decimal options.radix width options.duplicates text = .error error :=
  Fallible.bind_pure_eq_error_iff

theorem exists_parse_iff :
    (∃ file, parse text width options = .ok file) ↔
      ∃ words, load .decimal options.radix width options.duplicates text = .ok words :=
  Fallible.exists_bind_pure_iff

/-- What is accepted under both policies is the same register file. -/
theorem parse_congr {radix : Radix} {a b : DuplicatePolicy} {fileA fileB : RegisterFile}
    (ha : parse text width ⟨a, radix⟩ = .ok fileA) (hb : parse text width ⟨b, radix⟩ = .ok fileB) :
    fileA = fileB := by
  obtain ⟨hwidthA, hloadA⟩ := parse_eq_ok_iff.1 ha
  obtain ⟨hwidthB, hloadB⟩ := parse_eq_ok_iff.1 hb
  have hwords : fileA.words = fileB.words := load_congr hloadA hloadB
  cases fileA
  cases fileB
  rw [RegisterFile.mk.injEq]
  exact ⟨hwidthA.trans hwidthB.symm, hwords⟩

/-- A configuration is read if every line with content gives a register a word that fits, and the
last line of a register counts.  The error is that of the first line that is misread or, if there is
none, of the first word that is too wide or repeats a register against the policy. -/
theorem parse_outcome (text : String) (width : Width) (radix : Radix) :
    ((∃ file, parse text width ⟨.lastWins, radix⟩ = .ok file) ↔
      ∀ line ∈ Text.lines text.toList, Text.content line ≠ [] →
        ∃ register word, Gives .decimal radix line register word ∧ width.Fits word) ∧
    (∀ file, parse text width ⟨.lastWins, radix⟩ = .ok file →
      file.width = width ∧
      (∀ register, file.contains register = true ↔
        NamedIn .decimal radix (Text.lines text.toList) register) ∧
      ∀ register word, file.words.get? register = some word ↔
        LastGives .decimal radix (Text.lines text.toList) register word) ∧
    ((∃ file, parse text width ⟨.reject, radix⟩ = .ok file) ↔
      (∃ file, parse text width ⟨.lastWins, radix⟩ = .ok file) ∧
        NamedOnce .decimal radix (Text.lines text.toList)) ∧
    (∀ file, parse text width ⟨.reject, radix⟩ = .ok file →
      parse text width ⟨.lastWins, radix⟩ = .ok file) ∧
    ∀ policy error, parse text width ⟨policy, radix⟩ = .error error ↔
      Fallible.FirstFault (fun earlier ↦ Misread .decimal radix (earlier.length + 1))
          (Text.lines text.toList) error ∨
        Readable .decimal radix (Text.lines text.toList) ∧
          Fallible.FirstFault (fun earlier ↦ Unfit .decimal radix width policy
            (NamedIn .decimal radix earlier) (earlier.length + 1))
            (Text.lines text.toList) error := by
  have haccepts (policy : DuplicatePolicy) :
      (∃ file, parse text width ⟨policy, radix⟩ = .ok file) ↔
        (∀ line ∈ Text.lines text.toList, Text.content line ≠ [] →
          ∃ register word, Gives .decimal radix line register word ∧ width.Fits word) ∧
        (policy = .reject → NamedOnce .decimal radix (Text.lines text.toList)) :=
    exists_parse_iff.trans exists_load_iff
  have hlastWins : (∃ file, parse text width ⟨.lastWins, radix⟩ = .ok file) ↔
      ∀ line ∈ Text.lines text.toList, Text.content line ≠ [] →
        ∃ register word, Gives .decimal radix line register word ∧ width.Fits word := by
    rw [haccepts, and_iff_left]
    exact fun h ↦ nomatch h
  have hreject : (∃ file, parse text width ⟨.reject, radix⟩ = .ok file) ↔
      (∃ file, parse text width ⟨.lastWins, radix⟩ = .ok file) ∧
        NamedOnce .decimal radix (Text.lines text.toList) := by
    rw [haccepts, hlastWins, forall_prop_of_true rfl]
  refine ⟨hlastWins, fun file hfile ↦ ?_, hreject, fun file hfile ↦ ?_, fun policy error ↦ ?_⟩
  · obtain ⟨hwidth, hload⟩ := parse_eq_ok_iff.1 hfile
    exact ⟨hwidth, contains_of_load hload, get?_of_load hload⟩
  · obtain ⟨other, hother⟩ := (hreject.1 ⟨file, hfile⟩).1
    rwa [parse_congr hfile hother]
  · exact parse_eq_error_iff.trans load_eq_error_iff

/-- The last line names the register of the first one again. -/
def repeatedText : String :=
  "R1 0x10\nR2 3 # two\n0x01 4\n"

theorem parse_outcome_repeatedText :
    (∃ file, parse repeatedText .w16 ⟨.lastWins, .hex⟩ = .ok file ∧ file.width = .w16 ∧
      NamedIn .decimal .hex (Text.lines repeatedText.toList) 1 ∧
      LastGives .decimal .hex (Text.lines repeatedText.toList) 1 4) ∧
    ¬NamedOnce .decimal .hex (Text.lines repeatedText.toList) ∧
    parse repeatedText .w16 ⟨.reject, .hex⟩ = .error (.duplicate 3 1) ∧
    ∃ file, parse "R1 0x10" .w16 ⟨.reject, .hex⟩ = .ok file ∧
      parse "R1 0x10" .w16 ⟨.lastWins, .hex⟩ = .ok file := by
  obtain ⟨-, hlast, hreject, -⟩ := parse_outcome repeatedText .w16 .hex
  obtain ⟨-, -, -, hboth, -⟩ := parse_outcome "R1 0x10" .w16 .hex
  have hok : parse repeatedText .w16 ⟨.lastWins, .hex⟩ =
      .ok ⟨.w16, .ofList [(1, 4), (2, 3)]⟩ := by decide +kernel
  have herror : parse repeatedText .w16 ⟨.reject, .hex⟩ = .error (.duplicate 3 1) := by
    decide +kernel
  have hsingle : parse "R1 0x10" .w16 ⟨.reject, .hex⟩ = .ok ⟨.w16, .ofList [(1, 0x10)]⟩ := by
    decide +kernel
  obtain ⟨hwidth, hnamed, hgives⟩ := hlast _ hok
  refine ⟨⟨_, hok, hwidth, (hnamed 1).1 (by decide), (hgives 1 4).1 (by decide)⟩, fun honce ↦ ?_,
    herror, _, hsingle, hboth _ hsingle⟩
  obtain ⟨file, hfile⟩ := hreject.2 ⟨⟨_, hok⟩, honce⟩
  rw [herror] at hfile
  cases hfile

/-- A line that cannot be read is reported before an earlier word that is too wide. -/
example : parse "R1 0x10000\nR2 1 # one\nR3" .w16 ⟨.reject, .hex⟩ =
    .error (.malformed 3 "R3") := by
  decide +kernel

end ChipConfig.RegisterFile
