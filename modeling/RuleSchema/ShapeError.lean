import RuleSchema.Text.Quoted
/-! What can be wrong with the form of a rule. -/
namespace RuleSchema

inductive ShapeError where
  | emptyField
  | emptySegment (field : String)
  | invalidCondition (token : String)
  | emptyValue
  | duplicateId (id : String)
  | malformedLine (line : String)
  deriving DecidableEq, Repr

def ShapeError.message : ShapeError → String
  | .emptyField => "rule shape error: field is required"
  | .emptySegment field =>
    "rule shape error: field " ++ Text.quoted field ++ " contains an empty path segment"
  | .invalidCondition token =>
    "rule shape error: invalid condition " ++ Text.quoted token ++
      " (expected one of ==, !=, >, <, >=, <=)"
  | .emptyValue => "rule shape error: value is required"
  | .duplicateId id => "rule shape error: duplicate rule id " ++ Text.quoted id
  | .malformedLine line =>
    "rule shape error: expected \"field condition value\", got " ++ Text.quoted line

end RuleSchema
