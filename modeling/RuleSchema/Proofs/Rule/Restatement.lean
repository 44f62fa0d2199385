import RuleSchema.Proofs.Admission.Outcome
import RuleSchema.Proofs.Text.Words
/-! Rules proposed once more. The proposal a rule is written as stands for the same rule, but each
reading takes a semicolon away from the end of the value while there is one. -/
namespace RuleSchema

theorem Condition.parsedToken (c : Condition) : parse? c.token = some c := by
  cases c <;> decide

namespace Proposal

theorem literalMarked {t : String} (trimmed : Text.trim (t ++ ";") = t ++ ";") :
    literal (t ++ ";") = Text.trim t := by
  have fresh := Text.trimFixed.mp trimmed
  have marked : (t ++ ";").toList = t.toList ++ [';'] := by simp
  simp only [literal, fresh.trimChars]
  rw [marked, if_pos List.getLast?_concat, List.dropLast_concat, Text.trim]

/-- A value without blanks at its ends is a literal, unless it ends in a semicolon. -/
theorem literalSelf {value : String} (trimmed : Text.trim value = value) :
    literal value = value ↔ ∀ t, value ≠ t ++ ";" := by
  constructor
  · rintro same t rfl
    rw [literalMarked trimmed, ← String.toList_inj, Text.trim, String.toList_ofList] at same
    obtain ⟨before, after, _, _, whole⟩ := Text.trimAround t.toList
    have size := congrArg List.length whole
    simp only [same, String.toList_append, List.length_append] at size
    have mark : ";".toList.length = 1 := rfl
    omega
  · intro unmarked
    have fresh := Text.trimFixed.mp trimmed
    have open_ : value.toList.getLast? ≠ some ';' := by
      intro marked
      obtain ⟨front, whole⟩ := List.getLast?_eq_some_iff.mp marked
      exact unmarked (String.ofList front) (by rw [← String.toList_inj, whole]; simp)
    simp only [literal, fresh.trimChars]
    rw [if_neg open_, fresh.trimChars, String.ofList_toList]

/-- A text with no blank at its ends is not blank in front of its semicolon either. -/
theorem trimMarked {t : String} (trimmed : Text.trim (t ++ ";") = t ++ ";") :
    Text.trim t = "" ↔ t = "" := by
  constructor
  · intro empty
    cases chars : t.toList with
    | nil => exact String.toList_eq_nil_iff.mp chars
    | cons c rest =>
      have blank := Text.trimEmpty empty c (by rw [chars]; exact List.mem_cons_self)
      rw [(Text.trimFixed.mp trimmed).first c (by simp [chars])] at blank
      cases blank
  · rintro rfl
    rfl

theorem toRuleAgain {p : Proposal} {fresh : String} {r : Rule} {path : FieldPath}
    (made : p.toRule fresh = .ok (r, path)) (other : String) :
    r.toProposal.toRule other = if literal r.value = "" then .error .emptyValue
      else .ok ({ r with value := literal r.value }, path) := by
  obtain ⟨parsed, c, _, _, rfl⟩ := toRuleOk.mp made
  simp only [toRule, Rule.toProposal, FieldPath.parseText parsed, Condition.parsedToken, bind,
    Except.bind, Option.getD_some]
  rfl

/-- A rule is in form, and the rule it stands for when proposed once more is itself unless its
value ends in a semicolon. Then that one is taken away as well, and a value that is nothing else
is refused. -/
theorem restatementSettles {p : Proposal} {fresh : String} {r : Rule} {path : FieldPath}
    (made : p.toRule fresh = .ok (r, path)) (other : String) :
    Text.trim r.field = r.field ∧ r.field ≠ "" ∧ Text.trim r.value = r.value ∧ r.value ≠ "" ∧
    r.path = .ok path ∧ Text.joined '.' path.segments = r.field ∧
    (r.toProposal.toRule other = .ok (r, path) ↔ ∀ t, r.value ≠ t ++ ";") ∧
    ∀ t, r.value = t ++ ";" → r.toProposal.toRule other =
      if t = "" then .error .emptyValue else .ok ({ r with value := Text.trim t }, path) := by
  have again := toRuleAgain made other
  obtain ⟨parsed, c, _, nonempty, same⟩ := toRuleOk.mp made
  have field : r.field = path.text := by rw [same]
  have value : r.value = literal p.value := by rw [same]
  have trimmed : Text.trim r.value = r.value := by rw [value, literalTrimmed]
  rw [← value] at nonempty
  refine ⟨?_, ?_, trimmed, nonempty, ?_, field.symm, ?_, fun t marked => ?_⟩
  · rw [field, FieldPath.parsedText parsed, Text.trimTwice]
  · rw [field]
    exact FieldPath.parsedNonempty parsed
  · rw [Rule.path, field]
    exact FieldPath.parseText parsed
  · rw [again, ← literalSelf trimmed]
    constructor
    · intro kept
      split at kept
      · cases kept
      · exact congrArg (fun made => made.1.value) (Except.ok.inj kept)
    · intro kept
      rw [kept, if_neg nonempty]
  · rw [marked] at trimmed
    rw [again, marked, literalMarked trimmed]
    simp only [trimMarked trimmed]

end Proposal

namespace Sample

def payment (value : String) : Proposal := ⟨some "a", "\u3000totals.paid ", " != ", value, none⟩

def paymentPath : FieldPath := ⟨["totals", "paid"], by decide, by decide⟩

def paymentRule (value : String) : Rule := ⟨"a", "totals.paid", .notEqual, value, false, none⟩

end Sample

namespace Proposal
open Sample

theorem restatementSettlesPayment :
    (payment "in full \u2003; ").toRule "new" = .ok (paymentRule "in full", paymentPath) ∧
    (paymentRule "in full").toProposal.toRule "newer" =
      .ok (paymentRule "in full", paymentPath) := by
  have made : (payment "in full \u2003; ").toRule "new" =
      .ok (paymentRule "in full", paymentPath) := by rfl
  obtain ⟨_, _, trimmed, _, _, _, settled, _⟩ := restatementSettles made "newer"
  exact ⟨made, settled.mpr ((literalSelf trimmed).mp (by decide))⟩

/-- With two semicolons at its end a value gives another rule the second time, and one that is
nothing else gives none. -/
theorem restatementShortens :
    (payment "late;;").toRule "new" = .ok (paymentRule "late;", paymentPath) ∧
    (paymentRule "late;").toProposal.toRule "newer" = .ok (paymentRule "late", paymentPath) ∧
    paymentRule "late" ≠ paymentRule "late;" ∧
    (payment ";;").toRule "new" = .ok (paymentRule ";", paymentPath) ∧
    (paymentRule ";").toProposal.toRule "newer" = .error .emptyValue := by
  exact ⟨by rfl, by rfl, by decide, by rfl, by rfl⟩

end Proposal

end RuleSchema
