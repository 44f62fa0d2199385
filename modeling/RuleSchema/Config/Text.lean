import RuleSchema.Config.Basic
import RuleSchema.Keyed
import RuleSchema.Yaml.Document
/-! Settings as YAML texts: a mapping in which every setting may be absent and others may
stand. Where nothing stands, nothing is set. -/
namespace RuleSchema

namespace Yaml

def isBlankNode : Yaml → Bool
  | .scalar _ .plain text => text = ""
  | _ => false

/-- The text of any scalar. -/
def text? (root v : Yaml) : Option String :=
  match root.target v with
  | .scalar _ _ text => some text
  | _ => none

/-- What a record has for each field name; keys are texts, and a name given twice is no record. -/
def recordFields? (root : Yaml) (names : List String) (v : Yaml) :
    Option (List (Option Yaml)) :=
  match root.target v with
  | .mapping _ pairs => do
    let fields ← pairs.mapM fun (k, v) => (root.text? k).map fun name => (name, v)
    if names.all fun name => (fields.filter fun p => p.1 == name).length ≤ 1 then
      some (names.map (Keyed.get? fields))
    else none
  | v => if v.isBlankNode then some (names.map fun _ => none) else none

/-- Only a plain scalar says true or false, or one written in lines if it is tagged so. -/
def flag? (root v : Yaml) : Option Bool :=
  match root.target v with
  | .scalar p style text =>
    if style = .plain ∨ (style = .literal ∧ p.tag = some "tag:yaml.org,2002:bool") then
      if ["true", "True", "TRUE"].contains text then some true
      else if ["false", "False", "FALSE"].contains text then some false
      else none
    else none
  | _ => none

def textList? (root v : Yaml) : Option (List String) :=
  match root.target v with
  | .sequence _ elements => elements.mapM root.text?
  | v => if v.isBlankNode then some [] else none

def setting? {α : Type} (standard : α) (read : Yaml → Option α) : Option Yaml → Option α
  | none => some standard
  | some v => read v

end Yaml

namespace FormatSwitches

def ofYaml? (root v : Yaml) : Option FormatSwitches :=
  match root.recordFields? ["uuid", "date"] v with
  | some [uuid, date] => do
    let uuid ← Yaml.setting? true root.flag? uuid
    let date ← Yaml.setting? true root.flag? date
    some ⟨uuid, date⟩
  | _ => none

end FormatSwitches

namespace Config

def ofYaml? (v : Yaml) : Option Config :=
  match v.recordFields? ["schema_name", "optional_fields", "formats"] v with
  | some [schemaName, optionalFields, formats] => do
    let schemaName ← Yaml.setting? standard.schemaName v.text? schemaName
    let optionalFields ← Yaml.setting? standard.optionalFields v.textList? optionalFields
    let formats ← Yaml.setting? standard.formats (FormatSwitches.ofYaml? v) formats
    some ⟨schemaName, optionalFields, formats⟩
  | _ => none

/-- The settings of a text; a text without a document has none. -/
def parse? (text : String) : Option Config :=
  (Yaml.parse? text).bind fun
    | none => some standard
    | some v => ofYaml? v

end Config

end RuleSchema
