import RuleSchema.FieldPath
import RuleSchema.Schema.Basic
/-! Finding fields. In a document a path goes from member to member, in a schema document from
property to property; arrays are never entered. -/
namespace RuleSchema

/-- The tree a path is followed in. -/
inductive Tree where
  | schema
  | document
  deriving DecidableEq, Repr

def Tree.name : Tree → String
  | schema => "schema"
  | document => "document"

namespace Json

def member? (v : Json) (path : List String) : Option Json :=
  path.foldl (fun v name => v.bind fun v => v.get? name) (some v)

def property? (v : Json) (name : String) : Option Json :=
  (v.get? "properties").bind fun properties => properties.get? name

def declared? (v : Json) (path : List String) : Option Json :=
  path.foldl (fun v name => v.bind fun v => v.property? name) (some v)

/-- A value with the type `object` and an object of properties is taken for a schema
document. -/
def tree (root : Json) : Tree :=
  if root.get? "type" = some (.string "object") ∧
      ((root.get? "properties").any isObject) = true then .schema
  else .document

/-- Follows a path as the form of the root suggests. -/
def resolve? (root : Json) (path : List String) : Option (Tree × Json) :=
  match root.tree with
  | .schema => (root.declared? path).map fun v => (.schema, v)
  | .document => (root.member? path).map fun v => (.document, v)

end Json

end RuleSchema
