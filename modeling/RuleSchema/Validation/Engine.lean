import RuleSchema.Comparison
import RuleSchema.Schema.Infer
import RuleSchema.Schema.Merge
import RuleSchema.Validation.SchemaFault
import RuleSchema.Validation.Violation
/-! Validation of documents by a schema and by rules. Violations at or under an optional
top-level member are no issues, nor is its absence. -/
namespace RuleSchema

structure Engine where
  schema : Schema
  rules : List Rule
  config : Config
  sound : schema.fault? = none
  deriving Repr

namespace Violation

def toIssue (v : Violation) : Issue := ⟨v.pointer, v.message, .schema⟩

/-- The top-level member a violation concerns: the one the root misses, or else the one its
pointer begins with. -/
def topLevelField? (v : Violation) : Option String :=
  match v.breach with
  | .missing name => if v.pointer = "" then some name else v.toIssue.topLevelField?
  | _ => v.toIssue.topLevelField?

def isExempt (config : Config) (v : Violation) : Bool :=
  v.topLevelField?.any config.isOptional

end Violation

namespace Engine

def compile (schema : Schema) (rules : List Rule) (config : Config) :
    Except SchemaFault Engine :=
  match h : schema.fault? with
  | some f => .error f
  | none => .ok ⟨schema, rules, config, h⟩

def ofBase (base : Schema) (rules : List Rule) (config : Config) : Except SchemaFault Engine :=
  compile (base.withRules rules) rules config

def ofSample (sample : Json) (rules : List Rule) (config : Config) :
    Except SchemaFault Engine :=
  ofBase (Schema.infer config sample) rules config

def violations (e : Engine) (document : Json) : List Violation :=
  e.schema.violations e.config.formats [] document

def schemaIssues (e : Engine) (document : Json) : List Issue :=
  ((e.violations document).filter fun v => !v.isExempt e.config).map Violation.toIssue

def validate (e : Engine) (document : Json) : Report :=
  .ofGroups (e.schemaIssues document) (Rule.issues e.rules document)

end Engine

/-- The engine in force, which another one may replace. -/
structure SharedEngine where
  current : Engine

namespace SharedEngine

def replace (s : SharedEngine) (e : Engine) : Engine × SharedEngine := (s.current, ⟨e⟩)

def validate (s : SharedEngine) (document : Json) : Report := s.current.validate document

end SharedEngine

end RuleSchema
