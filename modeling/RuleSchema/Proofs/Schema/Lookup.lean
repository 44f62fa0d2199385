import RuleSchema.Proofs.Schema.Document
/-! Lookups in written schemas. A path leads through the document of a schema as it leads through
the schema, to the document of the node there. The document tells what it is only where the root
is an object with properties; any other is followed as plain data. -/
namespace RuleSchema

namespace Schema

theorem getToJson (s : Schema) (key : String) :
    s.toJson.get? key = Keyed.get? s.writtenMembers key := by
  rw [toJsonMembers]
  rfl

theorem propertyToJson (s : Schema) (name : String) :
    s.toJson.property? name = (s.property? name).map toJson := by
  obtain ⟨_, properties, _⟩ := s.writtenFields
  rw [Json.property?, getToJson, properties, property?, propertyMembersEq]
  cases s.properties with
  | nil => rfl
  | cons p rest => exact Keyed.getMap toJson (p :: rest) name

end Schema

namespace Json

theorem declaredCons (v : Json) (name : String) (rest : List String) :
    v.declared? (name :: rest) = (v.property? name).bind fun w => w.declared? rest :=
  walkCons property? v name rest

end Json

namespace Schema

theorem declaredToJson (s : Schema) (path : List String) :
    s.toJson.declared? path = (s.at? path).map toJson := by
  induction path generalizing s with
  | nil => rfl
  | cons name rest ih =>
    rw [Json.declaredCons, atCons, propertyToJson]
    cases s.property? name with
    | none => rfl
    | some child => exact ih child

/-- The document of a schema is taken for one exactly when its root is an object with properties. -/
theorem treeToJson (s : Schema) :
    s.toJson.tree = .schema ↔ s.kind = .object ∧ s.properties ≠ [] := by
  obtain ⟨kind, properties, _⟩ := s.writtenFields
  have object : s.kind.name = "object" ↔ s.kind = .object := by
    cases s.kind <;> decide
  rw [Json.tree, getToJson, getToJson, kind, properties]
  cases s.properties <;> simp [object, Json.isObject]

/-- Looking up a path in the document of a schema gives the document of what the schema has
there. A root that is an object with properties is taken for a schema, and no other is, so a path
is then followed among the properties without being told to; in what is taken for plain data it
is followed from member to member. -/
theorem lookupsAgree (s : Schema) (path : FieldPath) :
    s.toJson.declared? path.segments = (s.at? path.segments).map toJson ∧
    (s.toJson.tree = .schema ↔ s.kind = .object ∧ s.properties ≠ []) ∧
    (s.kind = .object → s.properties ≠ [] → s.toJson.resolve? path.segments =
      (s.at? path.segments).map fun t => (.schema, t.toJson)) ∧
    ∀ v : Json, v.tree = .document →
      v.resolve? path.segments = (v.member? path.segments).map fun w => (.document, w) := by
  refine ⟨declaredToJson s _, treeToJson s, fun kind some => ?_, fun v data => ?_⟩
  · have tree : s.toJson.tree = .schema := s.treeToJson.mpr ⟨kind, some⟩
    rw [Json.resolve?, tree]
    dsimp only
    rw [declaredToJson, Option.map_map]
    rfl
  · rw [Json.resolve?, data]

end Schema

namespace Sample

/-- A number that must be positive, in an object, both under the name of a keyword. -/
def positive : Schema :=
  { Schema.bare .number with
    constraints := { Constraints.empty with
      minimum := some (.zero false), exclusiveMinimum := some true } }

def keywords : Schema :=
  { Schema.bare .object with
    properties := [("properties", { Schema.bare .object with properties := [("type", positive)] })] }

def typePath : FieldPath := ⟨["properties", "type"], by decide, by decide⟩

/-- Data that has the keywords of a schema, with other values. -/
def typed : Json := .object [("properties", .object [("type", .null)]), ("type", .string "bill")]

end Sample

namespace Schema
open Sample

theorem lookupsAgreeKeywords :
    keywords.toJson.resolve? typePath.segments = some (.schema, positive.toJson) ∧
    typed.resolve? typePath.segments = some (.document, .null) := by
  obtain ⟨_, _, told, data⟩ := lookupsAgree keywords typePath
  constructor
  · exact told rfl (List.cons_ne_nil _ _)
  · exact data typed (by decide)

end Schema

end RuleSchema
