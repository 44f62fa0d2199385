import RuleSchema.Proofs.Admission.Outcome
import RuleSchema.Proofs.Binary64.Decimal
import RuleSchema.Proofs.Validation.OwnSchema
/-! A number before a rule and before the keywords of that rule. The rule looks at the number
rounded to binary64 and the keywords at its exact value, so the two part where rounding takes the
number onto the literal of the rule. -/
namespace RuleSchema

/-- On which side of a bound a number meets the operator no less for being rounded onto the
bound. -/
def Condition.spares : Condition → Int → Int → Prop
  | equal, _, _ | notEqual, _, _ => False
  | greater, a, b | lessOrEqual, a, b => a < b
  | less, a, b | greaterOrEqual, a, b => b < a

theorem Condition.relatesRounded {n : Number} {x : Binary64} (rounds : n.RoundsTo x)
    (y : Binary64) (c : Condition) :
    (c.relates x.units y.units ↔ c.relates n.units y.units) ↔
      (x.units = y.units → n.units = y.units ∨ c.spares n.units y.units) := by
  obtain ⟨above, below⟩ := rounds y
  by_cases onto : x.units = y.units
  · cases c <;> simp [relates, spares, onto] <;> omega
  · cases c <;> simp only [relates, spares] <;> omega

namespace Proposal

def exactly (field : String) (k : Whole) : Proposal := ⟨none, field, "==", k.value.repr, none⟩

theorem literalRepr (n : Int) : literal n.repr = n.repr := by
  have last : n.repr.toList.getLast? ≠ some ';' := by
    intro mark
    rcases reprChar n (List.mem_of_getLast? mark) with sign | digit
    · cases sign
    · cases digit
  simp [literal, reprTrimmed, last]

theorem exactlyRule (k : Whole) (fresh : String) :
    ∃ path, (exactly "x" k).toRule fresh =
        .ok (⟨fresh, "x", .equal, k.value.repr, false, none⟩, path) ∧
      FieldPath.parse "x" = .ok path ∧ path.segments = ["x"] := by
  obtain ⟨path, parsed, segments⟩ : ∃ path, FieldPath.parse "x" = .ok path ∧
      path.segments = ["x"] := ⟨⟨["x"], by decide, by decide⟩, rfl, rfl⟩
  have condition : Condition.parse? "==" = some .equal := by decide +kernel
  have text : path.text = "x" := by
    rw [FieldPath.parsedText parsed]
    decide +kernel
  refine ⟨path, toRuleOk.mpr ⟨parsed, .equal, condition, ?_, ?_⟩, parsed, segments⟩
  · intro none
    have digits := reprNumeral k.value
    rw [show literal (exactly "x" k).value = k.value.repr from literalRepr k.value] at none
    rw [none] at digits
    cases digits
  · rw [text]
    simp [exactly, literalRepr]

end Proposal

namespace Whole
variable (config : Config) (k : Whole)

def document : Json := .object [("x", .number (.whole k))]

theorem documentOrdered : k.document.Ordered :=
  ⟨List.pairwise_singleton _ _, trivial, trivial⟩

theorem documentPasses : (Schema.infer config k.document).Passes config k.document := by
  have none : (Schema.infer config k.document).violations config.formats [] k.document = [] :=
    Schema.ownViolations k.documentOrdered ⟨trivial, trivial⟩ []
  simp [Schema.Passes, none]

theorem passesOwn {r : Rule} (compiles : r.Compiles) (names : r.segments = ["x"]) :
    ((Schema.infer config k.document).withRules [r]).Passes config k.document ↔
      config.isOptional "x" = true ∨ (r.keywords .number).breaches (.number (.whole k)) = [] := by
  have ordered := Schema.inferOrdered config k.documentOrdered
  have declared : (Schema.infer config k.document).at? r.segments = some (Schema.bare .number) := by
    rw [names]
    rfl
  have present : k.document.member? r.segments = some (.number (.whole k)) := by
    rw [names]
    rfl
  have exempt : ∀ b, Violation.isExempt config ⟨["x"], .number (.whole k), b⟩ =
      config.isOptional "x" := by
    intro b
    rw [Violation.isExempt, Violation.topLevelFieldUnder]
    rfl
  rw [Schema.passesFilter, Schema.withRulesInPlace ordered (by simpa using compiles),
    Schema.imposeAllCons, Schema.imposeAll, List.foldl_nil,
    Schema.imposeViolations ordered declared present
      (Schema.passesFilter.mp (documentPasses config k)), names]
  cases optional : config.isOptional "x" with
  | true => simp [exempt, optional]
  | false =>
    simp [exempt, optional, Schema.bare, List.eq_nil_iff_forall_not_mem]

/-- The rule layer rounds the member before it compares, so its own digits always hold there. -/
theorem ownDigitsHold {r : Rule} {path : FieldPath} {x : Binary64} (own : r.path = .ok path)
    (segments : path.segments = ["x"]) (relation : r.condition = .equal)
    (number : r.number? = some x) (rounded : (Number.whole k).toBinary64? = some x) :
    Rule.issues [r] k.document = [] := by
  refine Rule.issuesNone.mpr fun q inside => ?_
  rw [List.mem_singleton.mp inside, Rule.issueNone]
  refine ⟨path, .number (.whole k), own, by rw [segments]; rfl, ?_⟩
  rw [Rule.holdsNumber number rounded, relation]
  rfl

/-- A document that shows a whole number admits the rule that has the digits of this number as its
literal exactly when binary64 has the number, or when the member is optional. -/
theorem admitsOwnDigits (fresh : String) :
    (admitRule config k.document (Schema.infer config k.document) [] fresh
      (.exactly "x" k)).isOk = true ↔
        config.isOptional "x" = true ∨ (Number.whole k).IsExact := by
  obtain ⟨path, made, parsed, segments⟩ := Proposal.exactlyRule k fresh
  obtain ⟨x, rounded, _⟩ := (Number.whole k).rounds
  generalize shaped : (⟨fresh, "x", .equal, k.value.repr, false, none⟩ : Rule) = r at made
  have own : r.path = .ok path := by rw [← shaped]; exact parsed
  have number : r.number? = some x := by
    rw [← shaped]
    exact k.textRounds.trans rounded
  have relation : r.condition = .equal := by rw [← shaped]
  have names : r.segments = ["x"] := (Rule.pathSegments own).trans segments
  have fits : r.checkOperator = .ok () := by
    simp [Rule.checkOperator, relation, Condition.isRelational]
  have resolved : unresolved? config k.document path = none := by
    rw [unresolved?, segments]
    rfl
  have holds : Rule.issues [r] k.document = [] :=
    ownDigitsHold k own segments relation number rounded
  have literal : r.literalFor (some .number) = .number (.binary x) := by
    simp [Rule.literalFor, number]
  have sound := Schema.withRulesSound (Schema.inferSound config k.document) [r]
  have passes := passesOwn config k ⟨⟨path, own⟩, fits⟩ names
  rw [Rule.breachesNumber number (.inr literal), relation] at passes
  have exact : (Number.whole k).units = x.units ↔ (Number.whole k).IsExact := by
    rw [Number.isExactIff, rounded, Option.map_some, Option.some.injEq, eq_comm]
  rw [admitRuleEq, made, ← exact]
  dsimp only
  rw [fits, List.any_nil]
  dsimp only
  rw [resolved]
  refine tryRuleAccepts.trans ⟨fun accepts => passes.mp accepts.passes, fun agree => ?_⟩
  exact ⟨sound, passes.mpr agree, holds⟩

end Whole

namespace Sample

/-- 2^53 + 1, the least whole number binary64 has not. -/
def odd : Whole := ⟨9007199254740993, by decide⟩

/-- What 2^53 + 1 is rounded to. -/
def even : Binary64 := ⟨false, 4503599627370496, 1075, by decide⟩

def oddRule : Rule := rule "odd" "x" .equal "9007199254740993"

theorem oddRuleNumber : oddRule.number? = some even := by decide +kernel

end Sample

namespace Rule

/-- A number meets a rule with a numeric value and the keywords of that rule alike, unless
rounding takes the number onto the value of the rule and the operator then answers otherwise. So
a document admits its own digits as a rule only if binary64 has its number. -/
theorem layersAgree {r : Rule} {y : Binary64} (number : r.number? = some y) (n : Number)
    (config : Config) (k : Whole) (fresh : String) :
    (∃ x, n.toBinary64? = some x ∧
      ((r.holdsFor (.number n) = true ↔ (r.keywords .number).breaches (.number n) = []) ↔
        (x.units = y.units → n.units = y.units ∨ r.condition.spares n.units y.units))) ∧
    ((admitRule config k.document (Schema.infer config k.document) [] fresh
        (.exactly "x" k)).isOk = true ↔
      config.isOptional "x" = true ∨ (Number.whole k).IsExact) := by
  obtain ⟨x, rounded, between⟩ := n.rounds
  have literal : r.literalFor (some .number) = .number (.binary y) := by
    simp [literalFor, number]
  refine ⟨⟨x, rounded, ?_⟩, k.admitsOwnDigits config fresh⟩
  rw [holdsNumber number rounded, breachesNumber number (.inr literal)]
  exact Condition.relatesRounded between y r.condition

open Sample in
theorem layersAgreeOdd : oddRule.number? = some even ∧
    (∃ x, (Number.whole odd).toBinary64? = some x ∧
      ((oddRule.holdsFor (.number (.whole odd)) = true ↔
          (oddRule.keywords .number).breaches (.number (.whole odd)) = []) ↔
        (x.units = even.units → (Number.whole odd).units = even.units ∨
          oddRule.condition.spares (Number.whole odd).units even.units))) ∧
    ((admitRule .standard odd.document (Schema.infer .standard odd.document) [] "new"
        (.exactly "x" odd)).isOk = true ↔
      Config.standard.isOptional "x" = true ∨ (Number.whole odd).IsExact) :=
  ⟨oddRuleNumber, layersAgree oddRuleNumber (.whole odd) .standard odd "new"⟩

open Sample in
theorem layersPart : oddRule.holdsFor (.number (.whole odd)) = true ∧
    (oddRule.keywords .number).breaches (.number (.whole odd)) ≠ [] ∧
    (admitRule .standard odd.document (Schema.infer .standard odd.document) [] "new"
      (.exactly "x" odd)).isOk = false := by
  decide +kernel

end Rule

end RuleSchema
