import RuleSchema.Json.Printer
import RuleSchema.Schema.Document
/-! Schemas that cannot be used for validation: a name required twice, or an exclusive flag
without its bound. Below an element schema either makes that whole schema the fault. -/
namespace RuleSchema

inductive SchemaFault where
  | repeatedNames (names : List String)
  | unbounded (bound : String)
  | badItems (items : Schema)
  deriving DecidableEq, Repr

namespace SchemaFault

def reason : SchemaFault → String
  | repeatedNames names => (Json.array (names.map .string)).compact ++ " has non-unique elements"
  | unbounded bound => Json.stringText bound ++ " is a required property"
  | badItems items =>
    items.toJson.compact ++
      " is not valid under any of the schemas listed in the 'anyOf' keyword"

def message (f : SchemaFault) : String := "schema compile error: " ++ f.reason

end SchemaFault

namespace Schema

def flagFault? (c : Constraints) : Option SchemaFault :=
  if c.exclusiveMaximum.isSome && c.maximum.isNone then some (.unbounded "maximum")
  else if c.exclusiveMinimum.isSome && c.minimum.isNone then some (.unbounded "minimum")
  else none

mutual
/-- The first fault: of a node's flags, its items, its properties, its required names. -/
def fault? : Schema → Option SchemaFault
  | ⟨_, properties, required, items, _, c⟩ =>
    flagFault? c <|> itemsFault? items <|> propertiesFault? properties <|>
      (if required.Nodup then none else some (.repeatedNames required))
termination_by structural s => s

def propertiesFault? : List (String × Schema) → Option SchemaFault
  | [] => none
  | (_, s) :: rest => fault? s <|> propertiesFault? rest
termination_by structural s => s

def itemsFault? : Option Schema → Option SchemaFault
  | none => none
  | some s => (fault? s).map fun _ => .badItems s
termination_by structural s => s
end

end Schema

end RuleSchema
