import RuleSchema.Binary64.Numeral
import RuleSchema.FieldPath
import RuleSchema.Rule.Condition
/-! Rules, and proposals for rules. A rule says that the value at a field stands in a
relation to a literal; a proposal is the same in raw text and becomes a rule when its form
is right. -/
namespace RuleSchema

structure Rule where
  id : String
  field : String
  condition : Condition
  value : String
  /-- Set once the rule has been admitted. -/
  isValid : Bool
  message : Option String
  deriving DecidableEq, Repr

/-- An order needs a number, and the value is none. -/
structure OperatorMismatch where
  field : String
  condition : Condition
  value : String
  deriving DecidableEq, Repr

def OperatorMismatch.message (e : OperatorMismatch) : String :=
  "operator mismatch: " ++ e.field ++ " " ++ e.condition.token ++ " " ++ Text.quoted e.value ++
    " compares against a non-numeric value"

namespace Rule

def path (r : Rule) : Except ShapeError FieldPath := FieldPath.parse r.field

def number? (r : Rule) : Option Binary64 := Binary64.ofText? r.value

def checkOperator (r : Rule) : Except OperatorMismatch Unit :=
  if r.condition.isRelational && r.number?.isNone then .error ⟨r.field, r.condition, r.value⟩
  else .ok ()

/-- The rule's own message, or its content in words. -/
def violationMessage (r : Rule) : String :=
  r.message.getD (r.field ++ " " ++ r.condition.phrase ++ " " ++ r.value)

def text (r : Rule) : String := r.field ++ " " ++ r.condition.token ++ " " ++ r.value

end Rule

structure Proposal where
  id : Option String
  field : String
  condition : String
  value : String
  message : Option String
  deriving DecidableEq, Repr

def Rule.toProposal (r : Rule) : Proposal :=
  ⟨some r.id, r.field, r.condition.token, r.value, r.message⟩

namespace Proposal

/-- The literal of a value text: trimmed, without one semicolon at its end, trimmed again. -/
def literal (value : String) : String :=
  let cs := Text.trimChars value.toList
  let body := if cs.getLast? = some ';' then cs.dropLast else cs
  String.ofList (Text.trimChars body)

/-- The rule a proposal stands for and its parsed field. The field is looked at first, then
the condition, then the value; `fresh` is the identifier of a proposal that has none. -/
def toRule (p : Proposal) (fresh : String) : Except ShapeError (Rule × FieldPath) := do
  let path ← FieldPath.parse p.field
  let condition ← match Condition.parse? p.condition with
    | some c => .ok c
    | none => .error (.invalidCondition p.condition)
  let value := literal p.value
  if value = "" then .error .emptyValue
  else .ok (⟨p.id.getD fresh, path.text, condition, value, false, p.message⟩, path)

end Proposal

end RuleSchema
