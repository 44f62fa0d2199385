import RuleSchema.Rule.Basic
import RuleSchema.Schema.Basic
/-! The keywords a rule comes to. An order becomes a bound, an equation a list of one value
that is allowed, or not allowed. -/
namespace RuleSchema.Rule

/-- The value an equation compares with. It is of the kind of the place where it can be,
elsewhere a number if the text is one. -/
def literalFor (r : Rule) (target : Option Kind) : Json :=
  let otherwise : Json := match r.number? with
    | some x => .number (.binary x)
    | none => .string r.value
  match target with
  | some .string => .string r.value
  | some .boolean =>
    let text := Text.trim r.value
    if text = "true" then .bool true else if text = "false" then .bool false else .string r.value
  | some .null => if Text.trim r.value = "null" then .null else otherwise
  | _ => otherwise

def bound (r : Rule) : Except OperatorMismatch Binary64 :=
  match r.number? with
  | some x => .ok x
  | none => .error ⟨r.field, r.condition, r.value⟩

/-- The keywords of a rule at a place of the given kind, or of no known kind. -/
def fragmentFor (r : Rule) (target : Option Kind) : Except OperatorMismatch Constraints :=
  match r.condition with
  | .greater => r.bound.map fun x =>
    { Constraints.empty with minimum := some x, exclusiveMinimum := some true }
  | .greaterOrEqual => r.bound.map fun x => { Constraints.empty with minimum := some x }
  | .less => r.bound.map fun x =>
    { Constraints.empty with maximum := some x, exclusiveMaximum := some true }
  | .lessOrEqual => r.bound.map fun x => { Constraints.empty with maximum := some x }
  | .equal => .ok { Constraints.empty with allowed := some [r.literalFor target] }
  | .notEqual => .ok { Constraints.empty with forbidden := some [r.literalFor target] }

end RuleSchema.Rule
