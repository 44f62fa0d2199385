import RuleSchema.Format.Basic
import RuleSchema.Json.Pointer
import RuleSchema.Json.Printer
import RuleSchema.Schema.Basic
/-! What a schema finds wrong in a value, keyword by keyword. A node's keywords are looked at
in the order of their names, and each whatever the kind of the node is. -/
namespace RuleSchema

inductive Breach where
  | notAllowed (allowed : List Json)
  | wrongFormat (format : String)
  | aboveMaximum (limit : Binary64) (exclusive : Bool)
  | belowMinimum (limit : Binary64) (exclusive : Bool)
  | forbidden (values : List Json)
  | missing (name : String)
  | wrongKind (kind : Kind)
  deriving DecidableEq, Repr

/-- A breach at the place in the document the tokens lead to. -/
structure Violation where
  place : List String
  value : Json
  breach : Breach
  deriving DecidableEq, Repr

namespace Violation

def message (v : Violation) : String :=
  let shown := v.value.compact
  match v.breach with
  | .notAllowed allowed => shown ++ " is not one of " ++ (Json.array allowed).compact
  | .wrongFormat format => shown ++ " is not a " ++ Json.stringText format
  | .aboveMaximum limit exclusive =>
    shown ++ " is greater than " ++ (if exclusive then "or equal to " else "") ++
      "the maximum of " ++ limit.text
  | .belowMinimum limit exclusive =>
    shown ++ " is less than " ++ (if exclusive then "or equal to " else "") ++
      "the minimum of " ++ limit.text
  | .forbidden values =>
    (Json.object [("enum", .array values)]).compact ++ " is not allowed for " ++ shown
  | .missing name => Json.stringText name ++ " is a required property"
  | .wrongKind kind => shown ++ " is not of type " ++ Json.stringText kind.name

def pointer (v : Violation) : String := Pointer.ofTokens v.place

end Violation

def isAmong (v : Json) (values : List Json) : Bool := values.any fun w => v.same w

def aboveMaximum? (c : Constraints) : Json → Option Breach
  | .number n => c.maximum.bind fun limit =>
    let exclusive := c.exclusiveMaximum.getD false
    if limit.units < n.units ∨ (exclusive = true ∧ n.units = limit.units) then
      some (.aboveMaximum limit exclusive)
    else none
  | _ => none

def belowMinimum? (c : Constraints) : Json → Option Breach
  | .number n => c.minimum.bind fun limit =>
    let exclusive := c.exclusiveMinimum.getD false
    if n.units < limit.units ∨ (exclusive = true ∧ n.units = limit.units) then
      some (.belowMinimum limit exclusive)
    else none
  | _ => none

def formatBreach? (switches : FormatSwitches) (format : Option String) : Json → Option Breach
  | .string s => format.bind fun f =>
    if Format.holds switches f s then none else some (.wrongFormat f)
  | _ => none

def missingNames (required : List String) : Json → List String
  | .object members => required.filter fun name => (Keyed.get? members name).isNone
  | _ => []

namespace Schema

mutual
def violations (switches : FormatSwitches) (place : List String) :
    Schema → Json → List Violation
  | ⟨kind, properties, required, items, format, c⟩, v =>
    let own (b : Breach) : Violation := ⟨place, v, b⟩
    (c.allowed.toList.filterMap fun values =>
      if isAmong v values then none else some (own (.notAllowed values))) ++
    ((formatBreach? switches format v).toList.map own) ++
    itemViolations switches place items v ++
    ((aboveMaximum? c v).toList.map own) ++
    ((belowMinimum? c v).toList.map own) ++
    (c.forbidden.toList.filterMap fun values =>
      if isAmong v values then some (own (.forbidden values)) else none) ++
    propertyViolations switches place properties v ++
    ((missingNames required v).map fun name => own (.missing name)) ++
    (if kind.admits v then [] else [own (.wrongKind kind)])
termination_by structural s => s

def propertyViolations (switches : FormatSwitches) (place : List String) :
    List (String × Schema) → Json → List Violation
  | [], _ => []
  | (name, s) :: rest, v =>
    (match v.get? name with
      | some child => violations switches (place ++ [name]) s child
      | none => []) ++
    propertyViolations switches place rest v
termination_by structural s => s

def itemViolations (switches : FormatSwitches) (place : List String) :
    Option Schema → Json → List Violation
  | some s, .array elements => elements.zipIdx.flatMap fun (element, i) =>
    violations switches (place ++ [i.repr]) s element
  | _, _ => []
termination_by structural s => s
end

end Schema

end RuleSchema
