import RuleSchema.Schema.Basic
/-! Schemas as JSON documents. Writing leaves out what is empty or absent; reading ignores
unknown keywords and refuses a document that is no schema. -/
namespace RuleSchema.Schema

mutual
def toJson : Schema → Json
  | ⟨kind, properties, required, items, format, constraints⟩ =>
    .object (constraints.leadingMembers ++
      Constraints.keyword "format" Json.string format ++
      itemsMember items ++
      constraints.trailingMembers ++
      (if properties.isEmpty then [] else [("properties", .object (propertyMembers properties))]) ++
      (if required.isEmpty then [] else [("required", .array (required.map .string))]) ++
      [("type", .string kind.name)])
termination_by structural s => s

def propertyMembers : List (String × Schema) → List (String × Json)
  | [] => []
  | (name, s) :: rest => (name, toJson s) :: propertyMembers rest
termination_by structural s => s

def itemsMember : Option Schema → List (String × Json)
  | none => []
  | some s => [("items", toJson s)]
termination_by structural s => s
end

mutual
def ofJson? : Json → Option Schema
  | .object members => do
    let kind ← Json.required? (fun v => v.caseName?.bind Kind.ofName?)
      (Keyed.get? members "type")
    let properties ← properties? members
    let required ← Json.defaulting? [] Json.textList? (Keyed.get? members "required")
    let items ← items? members
    let format ← Json.optional? Json.text? (Keyed.get? members "format")
    let constraints ← Constraints.ofFields? (Constraints.fieldNames.map (Keyed.get? members))
    some ⟨kind, properties, required, items, format, constraints⟩
  | _ => none
termination_by structural v => v

def properties? : List (String × Json) → Option (List (String × Schema))
  | [] => some []
  | (key, v) :: rest => if key = "properties" then named? v else properties? rest
termination_by structural v => v

def named? : Json → Option (List (String × Schema))
  | .object members => namedMembers? members
  | _ => none
termination_by structural v => v

def namedMembers? : List (String × Json) → Option (List (String × Schema))
  | [] => some []
  | (name, v) :: rest =>
    (ofJson? v).bind fun s => (namedMembers? rest).map fun ps => (name, s) :: ps
termination_by structural v => v

/-- What the members have under `items`, null being nothing. -/
def items? : List (String × Json) → Option (Option Schema)
  | [] => some none
  | (key, v) :: rest =>
    if key = "items" then (if v = .null then some none else (ofJson? v).map some)
    else items? rest
termination_by structural v => v
end

end RuleSchema.Schema
