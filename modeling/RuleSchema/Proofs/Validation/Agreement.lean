import RuleSchema.Proofs.Binary64.Exact
import RuleSchema.Proofs.Validation.Violations
/-! The keywords of a rule against the rule itself. On a value of the kind of its place, and
exact if it is a number, the keywords find nothing exactly when the rule holds; only an order
is silent about what is no number. -/
namespace RuleSchema

/-- The relation between two numbers an operator stands for. -/
def Condition.relates : Condition → Int → Int → Prop
  | equal, a, b => a = b
  | notEqual, a, b => a ≠ b
  | greater, a, b => b < a
  | less, a, b => a < b
  | greaterOrEqual, a, b => b ≤ a
  | lessOrEqual, a, b => a ≤ b

namespace Rule

theorem sameNumber (r : Rule) {n : Number} (exact : n.IsExact) :
    (Json.number n).same (r.literalFor none) = (Json.number n).meets r.value := by
  obtain ⟨x, rounded, units⟩ := Number.exactBinary exact
  rw [Json.meets, rounded, ← number?]
  cases found : r.number? with
  | none =>
    rw [show r.literalFor none = .string r.value by simp [literalFor, found]]
    rfl
  | some y =>
    rw [show r.literalFor none = .number (.binary y) by simp [literalFor, found]]
    show (n.units == y.units) = (x.units == y.units)
    rw [units]

theorem scalarLiteral (r : Rule) :
    (∃ x, r.literalFor none = .number (.binary x)) ∨ r.literalFor none = .string r.value := by
  unfold literalFor
  cases r.number? with
  | none => exact .inr rfl
  | some x => exact .inl ⟨x, rfl⟩

theorem sameLiteral (r : Rule) {kind : Kind} {v : Json} (admitted : kind.admits v = true)
    (exact : v.IsExact) : v.same (r.literalFor (some kind)) = v.meets r.value := by
  cases kind with
  | number | integer =>
    cases v with
    | number n => exact sameNumber r (exact n rfl)
    | null | bool _ | string _ | array _ | object _ => contradiction
  | string =>
    cases v with
    | string s => simp [literalFor, Json.same, Json.meets]
    | null | bool _ | number _ | array _ | object _ => contradiction
  | boolean =>
    cases v with
    | bool b =>
      by_cases yes : Text.trim r.value = "true"
      · have literal : r.literalFor (some .boolean) = .bool true := by simp [literalFor, yes]
        rw [literal]
        cases b <;> simp [Json.same, Json.meets, yes]
      · by_cases no : Text.trim r.value = "false"
        · have literal : r.literalFor (some .boolean) = .bool false := by simp [literalFor, no]
          rw [literal]
          cases b <;> simp [Json.same, Json.meets, no]
        · have literal : r.literalFor (some .boolean) = .string r.value := by
            simp [literalFor, yes, no]
          rw [literal]
          cases b <;> simp [Json.same, Json.meets, yes, no]
    | null | number _ | string _ | array _ | object _ => contradiction
  | null =>
    cases v with
    | null =>
      by_cases yes : Text.trim r.value = "null"
      · have literal : r.literalFor (some .null) = .null := by simp [literalFor, yes]
        rw [literal]
        simp [Json.same, Json.meets, yes]
      · rcases scalarLiteral r with ⟨x, literal⟩ | literal
        · rw [show r.literalFor (some .null) = .number (.binary x) by
            simpa [literalFor, yes] using literal]
          simp [Json.same, Json.meets, yes]
        · rw [show r.literalFor (some .null) = .string r.value by
            simpa [literalFor, yes] using literal]
          simp [Json.same, Json.meets, yes]
    | bool _ | number _ | string _ | array _ | object _ => contradiction
  | array =>
    cases v with
    | array elements =>
      rcases scalarLiteral r with ⟨x, literal⟩ | literal <;>
        exact (congrArg (Json.array elements).same literal).trans rfl
    | null | bool _ | number _ | string _ | object _ => contradiction
  | object =>
    cases v with
    | object members =>
      rcases scalarLiteral r with ⟨x, literal⟩ | literal <;>
        exact (congrArg (Json.object members).same literal).trans rfl
    | null | bool _ | number _ | string _ | array _ => contradiction

theorem holdsNumber {r : Rule} {y : Binary64} (number : r.number? = some y) {n : Number}
    {x : Binary64} (rounded : n.toBinary64? = some x) :
    r.holdsFor (.number n) = true ↔ r.condition.relates x.units y.units := by
  have less : ∀ a b : Binary64, a < b ↔ a.units < b.units := fun _ _ => Iff.rfl
  have atMost : ∀ a b : Binary64, a ≤ b ↔ a.units ≤ b.units := fun _ _ => Iff.rfl
  have text : Binary64.ofText? r.value = some y := number
  unfold holdsFor
  cases chosen : r.condition <;>
    simp [Json.meets, Json.coerce?, rounded, number, text, less, atMost, Condition.relates]

theorem breachesNumber {r : Rule} {y : Binary64} (number : r.number? = some y) {kind : Kind}
    (literal : r.condition.isRelational = true ∨
      r.literalFor (some kind) = .number (.binary y)) (n : Number) :
    (r.keywords kind).breaches (.number n) = [] ↔ r.condition.relates n.units y.units := by
  unfold keywords fragmentFor bound
  rw [number]
  cases chosen : r.condition with
  | equal | notEqual =>
    have among : isAmong (.number n) [r.literalFor (some kind)] = (n.units == y.units) := by
      rw [literal.resolve_left (by simp [chosen, Condition.isRelational])]
      exact Bool.or_false _
    simp [among, Constraints.breaches, Constraints.unmet, Constraints.met, Constraints.aboveNone,
      Constraints.belowNone, Constraints.empty, Condition.relates]
  | greaterOrEqual | lessOrEqual =>
    simp [Except.map, Constraints.breaches, Constraints.unmet, Constraints.met, aboveMaximum?,
      belowMinimum?, Constraints.empty, Condition.relates]
  | greater | less =>
    simp [Except.map, Constraints.breaches, Constraints.unmet, Constraints.met, aboveMaximum?,
      belowMinimum?, Constraints.empty, Condition.relates]
    omega

theorem orderAgrees {r : Rule} (relational : r.condition.isRelational = true) {y : Binary64}
    (number : r.number? = some y) (kind : Kind) {n : Number} (exact : n.IsExact) :
    (r.keywords kind).breaches (.number n) = [] ↔ r.holdsFor (.number n) = true := by
  obtain ⟨x, rounded, units⟩ := Number.exactBinary exact
  rw [breachesNumber number (.inl relational), holdsNumber number rounded, units]

/-- On a value of the kind of its place the keywords of a rule find nothing exactly when the rule
holds, or when the rule is an order and the value is no number. -/
theorem keywordsAgree {r : Rule} (fits : r.checkOperator = .ok ()) {kind : Kind} {v : Json}
    (admitted : kind.admits v = true) (exact : v.IsExact) :
    (r.keywords kind).breaches v = [] ↔ r.holdsFor v = true ∨
      r.condition.isRelational = true ∧ ∀ n, v ≠ .number n := by
  have literal := sameLiteral r admitted exact
  cases chosen : r.condition with
  | equal | notEqual =>
    simp [keywords, fragmentFor, chosen, holdsFor, Constraints.breaches, Constraints.unmet,
      Constraints.met, Constraints.empty, Constraints.aboveNone, Constraints.belowNone, isAmong,
      literal, Condition.isRelational]
  | greater | greaterOrEqual | less | lessOrEqual =>
    have relational : r.condition.isRelational = true := by rw [chosen]; rfl
    obtain ⟨y, number⟩ := numberOfOperator fits relational
    cases v with
    | number n =>
      rw [orderAgrees relational number kind (exact n rfl)]
      simp
    | null | bool _ | string _ | array _ | object _ =>
      simp [keywords, fragmentFor, chosen, bound, number, Except.map, Constraints.breaches,
        Constraints.unmet, Constraints.met, Constraints.empty, aboveMaximum?, belowMinimum?,
        Condition.isRelational]

end Rule

end RuleSchema
