import RuleSchema.Json.Record
import RuleSchema.Rule.Basic
/-! Rules and proposals as JSON records. -/
namespace RuleSchema

def Condition.ofJson? (v : Json) : Option Condition := v.caseName?.bind Condition.ofToken?

namespace Rule

def fieldNames : List String := ["id", "field", "condition", "value", "isValid", "message"]

def ofJson? (v : Json) : Option Rule :=
  match v.recordFields? fieldNames with
  | some [id, field, condition, value, isValid, message] => do
    let id ← Json.required? Json.text? id
    let field ← Json.required? Json.text? field
    let condition ← Json.required? Condition.ofJson? condition
    let value ← Json.required? Json.text? value
    let isValid ← Json.defaulting? false Json.flag? isValid
    let message ← Json.optional? Json.text? message
    some ⟨id, field, condition, value, isValid, message⟩
  | _ => none

/-- The fields in their own order; no message, no field for it. -/
def toMembers (r : Rule) : List (String × Json) :=
  [("id", .string r.id), ("field", .string r.field), ("condition", .string r.condition.token),
    ("value", .string r.value), ("isValid", .bool r.isValid)] ++
  (match r.message with
    | some m => [("message", .string m)]
    | none => [])

def toJson (r : Rule) : Json := .object r.toMembers

def listOfJson? (v : Json) : Option (List Rule) := v.elementList?.bind fun xs => xs.mapM ofJson?

end Rule

namespace Proposal

def fieldNames : List String := ["id", "field", "condition", "value", "message"]

def ofJson? (v : Json) : Option Proposal :=
  match v.recordFields? fieldNames with
  | some [id, field, condition, value, message] => do
    let id ← Json.optional? Json.text? id
    let field ← Json.defaulting? "" Json.text? field
    let condition ← Json.defaulting? "" Json.text? condition
    let value ← Json.defaulting? "" Json.text? value
    let message ← Json.optional? Json.text? message
    some ⟨id, field, condition, value, message⟩
  | _ => none

def toJson (p : Proposal) : Json :=
  let optional : Option String → Json
    | some s => .string s
    | none => .null
  .object [("id", optional p.id), ("field", .string p.field), ("condition", .string p.condition),
    ("value", .string p.value), ("message", optional p.message)]

end Proposal

end RuleSchema
