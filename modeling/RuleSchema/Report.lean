import RuleSchema.Json.Pointer
import RuleSchema.Json.Record
/-! What validation finds. Issues of the schema come first, then those of the rules. -/
namespace RuleSchema

inductive IssueSource where
  | schema
  | rule (id : String)
  deriving DecidableEq, Repr

structure Issue where
  /-- Pointer to the place in the document. -/
  path : String
  message : String
  source : IssueSource
  deriving DecidableEq, Repr

namespace Issue

def text (i : Issue) : String := i.path ++ " " ++ i.message

def isOfRule (i : Issue) : Bool :=
  match i.source with
  | .schema => false
  | .rule _ => true

/-- Name of the top-level member the place is at or under. -/
def topLevelField? (i : Issue) : Option String :=
  match Text.fields '/' i.path with
  | "" :: token :: _ => if token = "" then none else some (Pointer.unescape token)
  | _ => none

end Issue

namespace IssueSource

def toJson : IssueSource → Json
  | .schema => .object [("kind", .string "schema")]
  | .rule id => .object [("kind", .string "rule"), ("rule_id", .string id)]

def ofJson? : Json → Option IssueSource
  | .object members => match Keyed.get? members "kind", Keyed.get? members "rule_id" with
    | some (.string "schema"), _ => some .schema
    | some (.string "rule"), some (.string id) => some (.rule id)
    | _, _ => none
  | .array [.string "schema"] => some .schema
  | .array [.string "rule", .string id] => some (.rule id)
  | _ => none

end IssueSource

namespace Issue

def toJson (i : Issue) : Json :=
  .object [("message", .string i.message), ("path", .string i.path), ("source", i.source.toJson)]

def ofJson? (v : Json) : Option Issue :=
  match v.recordFields? ["path", "message", "source"] with
  | some [path, message, source] => do
    let path ← Json.required? Json.text? path
    let message ← Json.required? Json.text? message
    let source ← Json.required? IssueSource.ofJson? source
    some ⟨path, message, source⟩
  | _ => none

end Issue

structure Report where
  issues : List Issue
  deriving DecidableEq, Repr

namespace Report

def ofGroups (schemaIssues ruleIssues : List Issue) : Report := ⟨schemaIssues ++ ruleIssues⟩

def isValid (r : Report) : Bool := r.issues.isEmpty

def schemaIssues (r : Report) : List Issue := r.issues.filter fun i => !i.isOfRule
def ruleIssues (r : Report) : List Issue := r.issues.filter Issue.isOfRule

def messages (r : Report) : List String := r.issues.map Issue.text

def text (r : Report) : String := "\n".intercalate r.messages

def toJson (r : Report) : Json := .object [("issues", .array (r.issues.map Issue.toJson))]

end Report

end RuleSchema
