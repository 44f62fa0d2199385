import RuleSchema.Report
import RuleSchema.Resolution
import RuleSchema.Rule.Basic
/-! Rules held against a document directly. An order compares numbers, and texts that are
numbers; whatever is no number fails it. An equation never fails to compare: a number meets a
numeral of its value, a text the same text, true, false and null their names, and nothing
meets an array or an object. -/
namespace RuleSchema

def Json.coerce? : Json → Option Binary64
  | .number n => n.toBinary64?
  | .string s => Binary64.ofText? s
  | .null | .bool _ | .array _ | .object _ => none

def Json.meets (v : Json) (literal : String) : Bool :=
  match v with
  | .number n => match n.toBinary64?, Binary64.ofText? literal with
    | some x, some y => x.units == y.units
    | _, _ => false
  | .string s => s == literal
  | .bool b => Text.trim literal == if b then "true" else "false"
  | .null => Text.trim literal == "null"
  | .array _ | .object _ => false

namespace Rule

def holdsFor (r : Rule) (v : Json) : Bool :=
  let ordered (order : Binary64 → Binary64 → Bool) : Bool :=
    match v.coerce?, r.number? with
    | some x, some y => order x y
    | _, _ => false
  match r.condition with
  | .equal => v.meets r.value
  | .notEqual => !v.meets r.value
  | .greater => ordered fun x y => y < x
  | .greaterOrEqual => ordered fun x y => y ≤ x
  | .less => ordered fun x y => x < y
  | .lessOrEqual => ordered fun x y => x ≤ y

/-- What a document has against a rule. A field that is not there is always an issue. -/
def issue? (r : Rule) (document : Json) : Option Issue :=
  match r.path with
  | .error e => some ⟨"", e.message, .rule r.id⟩
  | .ok path => match document.member? path.segments with
    | none => some ⟨path.pointer, r.field ++ " does not exist", .rule r.id⟩
    | some v => if r.holdsFor v then none else some ⟨path.pointer, r.violationMessage, .rule r.id⟩

def issues (rules : List Rule) (document : Json) : List Issue :=
  rules.filterMap fun r => r.issue? document

end Rule

end RuleSchema
