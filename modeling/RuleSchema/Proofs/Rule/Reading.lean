import RuleSchema.Proofs.Admission.Outcome
import RuleSchema.Proofs.Text.Words
import RuleSchema.Rule.Line
/-! Lines that are read as rules. The value of a line is the text after its second word, with one
space wherever there were blanks. So not every rule is read back from its own line. -/
namespace RuleSchema

namespace InputLine
open Text

/-- A line taken apart: its first two words, and trimmed all the text after them. -/
structure Parts (line field condition value : String) : Prop where
  fieldSolid : Solid field.toList
  conditionSolid : Solid condition.toList
  valueNonempty : value ≠ ""
  valueTrimmed : trim value = value
  gaps : ∃ gap more, Gap gap.toList ∧ Gap more.toList ∧
    trim line = field ++ gap ++ condition ++ more ++ value

theorem Parts.words {line field condition value : String}
    (parts : Parts line field condition value) :
    words line = field :: condition :: words value := by
  obtain ⟨gap, more, first, second, whole⟩ := parts.gaps
  have last : Spaced (wordsAfter [] value.toList) (more.toList ++ value.toList) :=
    (wordsIff.mp rfl).behind second.blank
  have later := (last.next parts.conditionSolid (second.starts _)).behind first.blank
  have spaced := later.next parts.fieldSolid (first.starts _)
  rw [← wordsTrim, Text.words, whole]
  simp only [String.toList_append, List.append_assoc]
  rw [spacedWords spaced]
  simp [Text.words]

/-- A line of three words has a value: from the third word on to the end. -/
theorem partsOfWords {line : String} (many : 3 ≤ (words line).length) :
    ∃ field condition value, Parts line field condition value := by
  have fresh : FreshEnds (trim line).toList := trimFixed.mp (trimTwice line)
  have spaced : Spaced (wordsAfter [] (trim line).toList) (trim line).toList := wordsIff.mp rfl
  rw [← wordsTrim, Text.words, List.length_map] at many
  obtain ⟨field, condition, word, others, all⟩ : ∃ field condition word others,
      wordsAfter [] (trim line).toList = field :: condition :: word :: others := by
    generalize wordsAfter [] (trim line).toList = all at many
    rcases all with _ | ⟨_, _ | ⟨_, _ | _⟩⟩ <;> simp at many ⊢
  rw [all] at spaced
  obtain ⟨none, behind, whole, fieldSolid, apart, spaced, unblank, _⟩ := spaced.uncons
  cases unblank fresh.first
  obtain ⟨gap, after, rfl, conditionSolid, apartAfter, spaced, _, first⟩ := spaced.uncons
  obtain ⟨more, rest, rfl, solid, _, _, _, second⟩ := spaced.uncons
  have value : (trim line).toList = (field ++ gap ++ condition ++ more) ++ (word ++ rest) := by
    simp [whole]
  have filled : word ++ rest ≠ [] := by simp [solid.nonempty]
  rw [value] at fresh
  have ends : FreshEnds (word ++ rest) := fresh.later filled (solid.starts rest)
  refine ⟨String.ofList field, String.ofList condition, String.ofList (word ++ rest), ?_⟩
  refine ⟨by simpa using fieldSolid, by simpa using conditionSolid, ?_, ?_, ?_⟩
  · simpa [← String.toList_inj] using filled
  · rw [trimFixed, String.toList_ofList]
    exact ends
  · refine ⟨String.ofList gap, String.ofList more, ?_, ?_, ?_⟩
    · simpa using first apart
    · simpa using second apartAfter
    · rw [← String.toList_inj, value]
      simp

theorem Parts.unclosed {line field condition value : String}
    (parts : Parts line field condition value) : lowerAscii (trim line) ≠ doneWord := by
  intro closing
  obtain ⟨gap, more, first, second, whole⟩ := parts.gaps
  have size : (lowerAscii (trim line)).toList.length = 4 := by rw [closing]; rfl
  have filled := List.length_pos_iff.mpr parts.fieldSolid.nonempty
  have filledNext := List.length_pos_iff.mpr parts.conditionSolid.nonempty
  have parted := List.length_pos_iff.mpr first.nonempty
  have partedNext := List.length_pos_iff.mpr second.nonempty
  have last := List.length_pos_iff.mpr (mt String.toList_eq_nil_iff.mp parts.valueNonempty)
  simp only [lowerAscii, String.toList_ofList, List.length_map, whole, String.toList_append,
    List.length_append] at size
  omega

theorem Parts.parsed {line field condition value : String}
    (parts : Parts line field condition value) :
    parse line = .ok (.proposal ⟨none, field, condition, respaced value, none⟩) := by
  have all := parts.words
  rw [← wordsTrim] at all
  obtain ⟨word, others, split⟩ :=
    List.exists_cons_of_ne_nil (wordsNonempty parts.valueNonempty parts.valueTrimmed)
  rw [split] at all
  simp only [parse, parts.unclosed, if_false, all]
  rw [respaced, split]

theorem Parts.kept {line field condition value : String}
    (parts : Parts line field condition value) :
    parse line = .ok (.proposal ⟨none, field, condition, value, none⟩) ↔
      SinglySpaced value.toList := by
  rw [parts.parsed, ← respacedSelf parts.valueTrimmed]
  simp

theorem tokenSolid (c : Condition) : Solid c.token.toList := by
  cases c <;> exact ⟨by decide, by decide⟩

theorem partsOfRule {p : Proposal} {fresh : String} {r : Rule} {path : FieldPath}
    (made : p.toRule fresh = .ok (r, path)) (unblank : Unblank r.field.toList) :
    Parts r.text r.field r.condition.token r.value := by
  obtain ⟨parsed, c, _, nonempty, rfl⟩ := Proposal.toRuleOk.mp made
  have solid : Solid path.text.toList :=
    ⟨mt String.toList_eq_nil_iff.mp (FieldPath.parsedNonempty parsed), unblank⟩
  have trimmed := Proposal.literalTrimmed p.value
  have filled := mt String.toList_eq_nil_iff.mp nonempty
  refine ⟨solid, tokenSolid c, nonempty, trimmed, " ", " ", Gap.space, Gap.space, ?_⟩
  refine trimFixed.mpr ⟨?_, fun d final => (trimFixed.mp trimmed).last d ?_⟩
  · simp only [Rule.text, String.toList_append, List.append_assoc]
    exact solid.starts _
  · rw [← final, Rule.text, String.toList_append, List.getLast?_append_of_ne_nil _ filled]

/-- A line of three words or more is read as its first two and, respaced, all the text after them.
So that text is the value exactly when it is singly spaced. A rule whose field has no blank is read
back from its own line exactly when its value is. -/
theorem valueRespaced (line : String) (p : Proposal) (fresh : String) :
    (3 ≤ (words line).length → ∃ field condition value, Parts line field condition value) ∧
    (∀ field condition value, Parts line field condition value →
      (words line).take 2 = [field, condition] ∧
      parse line = .ok (.proposal ⟨none, field, condition, respaced value, none⟩) ∧
      words (respaced value) = words value ∧ SinglySpaced (respaced value).toList ∧
      (parse line = .ok (.proposal ⟨none, field, condition, value, none⟩) ↔
        SinglySpaced value.toList)) ∧
    ∀ r path, p.toRule fresh = .ok (r, path) → Unblank r.field.toList →
      parse r.text = .ok (.proposal ⟨none, r.field, r.condition.token, respaced r.value, none⟩) ∧
      (parse r.text = .ok (.proposal ⟨none, r.field, r.condition.token, r.value, none⟩) ↔
        SinglySpaced r.value.toList) := by
  refine ⟨partsOfWords, fun field condition value parts => ?_, fun r path made unblank => ?_⟩
  · refine ⟨?_, parts.parsed, respacedWords value, respacedSingly value, parts.kept⟩
    rw [parts.words, List.take_succ_cons, List.take_succ_cons, List.take_zero]
  · have parts := partsOfRule made unblank
    exact ⟨parts.parsed, parts.kept⟩

end InputLine

namespace Sample

def terms : FieldPath := ⟨["terms"], by decide, by decide⟩

def termsRule (value : String) : Rule := ⟨"a", "terms", .equal, value, false, none⟩

end Sample

namespace InputLine
open Text Sample

theorem valueRespacedTerms : 3 ≤ (words "\u00a0terms  ==\tNet 7 ").length ∧
    Parts "\u00a0terms  ==\tNet 7 " "terms" "==" "Net 7" ∧
    parse "\u00a0terms  ==\tNet 7 " = .ok (.proposal ⟨none, "terms", "==", "Net 7", none⟩) ∧
    (⟨some "a", " terms", "==", "Net 7;", none⟩ : Proposal).toRule "fresh" =
      .ok (termsRule "Net 7", terms) ∧
    Unblank "terms".toList ∧
    parse (termsRule "Net 7").text = .ok (.proposal ⟨none, "terms", "==", "Net 7", none⟩) := by
  have parts : Parts "\u00a0terms  ==\tNet 7 " "terms" "==" "Net 7" :=
    ⟨⟨by decide, by decide⟩, tokenSolid .equal, by decide, by decide, "  ", "\t",
      ⟨by decide, by decide⟩, ⟨by decide, by decide⟩, by decide⟩
  have spaced : SinglySpaced "Net 7".toList := by decide
  have made : (⟨some "a", " terms", "==", "Net 7;", none⟩ : Proposal).toRule "fresh" =
      .ok (termsRule "Net 7", terms) := by rfl
  obtain ⟨_, lines, rules⟩ := valueRespaced "\u00a0terms  ==\tNet 7 " _ _
  obtain ⟨_, _, _, _, kept⟩ := lines _ _ _ parts
  obtain ⟨_, keptRule⟩ := rules _ _ made (by decide)
  exact ⟨by decide, parts, kept.mpr spaced, made, by decide, keptRule.mpr spaced⟩

/-- The text after the condition may not be the value: two spaces in it become one. The rule with
that value is written as this line and not read back from it. -/
theorem valueNarrowed : Parts "terms == Net  7" "terms" "==" "Net  7" ∧
    parse "terms == Net  7" = .ok (.proposal ⟨none, "terms", "==", "Net 7", none⟩) ∧
    (⟨some "a", "terms", "==", "Net  7", none⟩ : Proposal).toRule "fresh" =
      .ok (termsRule "Net  7", terms) ∧
    (termsRule "Net  7").text = "terms == Net  7" ∧
    parse (termsRule "Net  7").text ≠ .ok (.proposal ⟨none, "terms", "==", "Net  7", none⟩) := by
  have parts : Parts "terms == Net  7" "terms" "==" "Net  7" :=
    ⟨⟨by decide, by decide⟩, tokenSolid .equal, by decide, by decide, " ", " ",
      Gap.space, Gap.space, by decide⟩
  exact ⟨parts, by decide, by rfl, by decide, by decide⟩

end InputLine

end RuleSchema
