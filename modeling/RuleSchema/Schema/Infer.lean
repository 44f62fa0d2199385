import RuleSchema.Config.Basic
import RuleSchema.Schema.Basic
/-! The schema a sample document shows. Every member is required unless its name is optional.
An array is taken to hold values like its first one, an empty array to hold objects. -/
namespace RuleSchema.Schema

mutual
def infer (config : Config) : Json → Schema
  | .array elements => arrayOf (inferElement config elements)
  | .object members =>
    { bare .object with
      properties := inferMembers config members
      required := (Keyed.keys members).foldl
        (fun names name => if config.isOptional name then names else addName names name) [] }
  | .null => bare .null
  | .bool _ => bare .boolean
  | .number _ => bare .number
  | .string _ => bare .string
termination_by structural v => v

def inferElement (config : Config) : List Json → Schema
  | [] => bare .object
  | first :: _ => infer config first
termination_by structural v => v

def inferMembers (config : Config) : List (String × Json) → List (String × Schema)
  | [] => []
  | (name, v) :: rest => (name, infer config v) :: inferMembers config rest
termination_by structural v => v
end

end RuleSchema.Schema
