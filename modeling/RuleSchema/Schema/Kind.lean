import RuleSchema.Json.Basic
/-! The kinds of values a schema tells apart. -/
namespace RuleSchema

inductive Kind where
  | string
  | number
  | integer
  | boolean
  | object
  | array
  | null
  deriving DecidableEq, Repr

namespace Kind

def all : List Kind := [string, number, integer, boolean, object, array, null]

def name : Kind → String
  | string => "string"
  | number => "number"
  | integer => "integer"
  | boolean => "boolean"
  | object => "object"
  | array => "array"
  | null => "null"

def ofName? (name : String) : Option Kind := all.find? fun k => k.name == name

def isNumeric : Kind → Bool
  | number | integer => true
  | _ => false

/-- The kind of a value; every number is of kind `number`. -/
def of : Json → Kind
  | .null => null
  | .bool _ => boolean
  | .number _ => number
  | .string _ => string
  | .array _ => array
  | .object _ => object

/-- Whether a value is of a kind. Only numbers written as whole ones are integers. -/
def admits : Kind → Json → Bool
  | null, .null | boolean, .bool _ | number, .number _ | integer, .number (.whole _)
  | string, .string _ | array, .array _ | object, .object _ => true
  | _, _ => false

theorem ofNameName (k : Kind) : ofName? k.name = some k := by cases k <;> decide

end Kind

end RuleSchema
