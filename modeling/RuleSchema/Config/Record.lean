import RuleSchema.Config.Basic
import RuleSchema.Json.Record
/-! Settings as JSON records. Absent settings have their standard values. -/
namespace RuleSchema

namespace FormatSwitches

def ofJson? (v : Json) : Option FormatSwitches :=
  match v.recordFields? ["uuid", "date"] with
  | some [uuid, date] => do
    let uuid ← Json.defaulting? true Json.flag? uuid
    let date ← Json.defaulting? true Json.flag? date
    some ⟨uuid, date⟩
  | _ => none

def toJson (f : FormatSwitches) : Json := .object [("date", .bool f.date), ("uuid", .bool f.uuid)]

end FormatSwitches

namespace Config

def fieldNames : List String := ["schema_name", "optional_fields", "formats"]

def ofJson? (v : Json) : Option Config :=
  match v.recordFields? fieldNames with
  | some [schemaName, optionalFields, formats] => do
    let schemaName ← Json.defaulting? standard.schemaName Json.text? schemaName
    let optionalFields ← Json.defaulting? standard.optionalFields Json.textList? optionalFields
    let formats ← Json.defaulting? standard.formats FormatSwitches.ofJson? formats
    some ⟨schemaName, optionalFields, formats⟩
  | _ => none

def toJson (c : Config) : Json :=
  .object [("formats", c.formats.toJson),
    ("optional_fields", .array (c.optionalFields.map .string)),
    ("schema_name", .string c.schemaName)]

end Config

end RuleSchema
