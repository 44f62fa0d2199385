import RuleSchema.Json.Basic
/-! Records in JSON: an object that has some of the fields, each at most once and others
beside them, or an array that gives the fields in their order and may end early. -/
namespace RuleSchema.Json

/-- What a record has for each field name, absent fields as `none`. -/
def recordFields? (names : List String) : Json → Option (List (Option Json))
  | .object members =>
    if names.all fun name => (members.filter fun m => m.1 == name).length ≤ 1 then
      some (names.map (Keyed.get? members))
    else none
  | .array elements =>
    if elements.length ≤ names.length then
      some (elements.map some ++ List.replicate (names.length - elements.length) none)
    else none
  | _ => none

def text? : Json → Option String
  | .string s => some s
  | _ => none

def flag? : Json → Option Bool
  | .bool b => some b
  | _ => none

def elementList? : Json → Option (List Json)
  | .array xs => some xs
  | _ => none

def textList? (v : Json) : Option (List String) := v.elementList?.bind fun xs => xs.mapM text?

def required? {α : Type} (read : Json → Option α) (field : Option Json) : Option α :=
  field.bind read

/-- A field with a value for its absence; null is not absence. -/
def defaulting? {α : Type} (absent : α) (read : Json → Option α) : Option Json → Option α
  | none => some absent
  | some v => read v

/-- A field that may be absent or null. -/
def optional? {α : Type} (read : Json → Option α) : Option Json → Option (Option α)
  | none | some .null => some none
  | some v => (read v).map some

/-- The name of a case: a text, or an object with null under that name and nothing else. -/
def caseName? : Json → Option String
  | .string s => some s
  | .object [(name, .null)] => some name
  | _ => none

end RuleSchema.Json
