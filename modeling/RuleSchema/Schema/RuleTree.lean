import RuleSchema.Schema.Fragment
/-! The schema of a list of rules. It has the fields the rules name, seeded from a base schema
where that declares them, each required in its parent and constrained by its rules. -/
namespace RuleSchema

inductive RuleFault where
  | shape (e : ShapeError)
  | operatorMismatch (e : OperatorMismatch)
  deriving DecidableEq, Repr

def RuleFault.message : RuleFault → String
  | .shape e => e.message
  | .operatorMismatch e => e.message

/-- A rule that has no schema, and why. -/
structure CompileError where
  ruleId : String
  fault : RuleFault
  deriving DecidableEq, Repr

def CompileError.message (e : CompileError) : String :=
  "rule " ++ e.ruleId ++ ": " ++ e.fault.message

namespace Schema

/-- The kind of a leaf no schema declares. -/
def leafKind (r : Rule) : Kind := if r.number?.isSome then .number else .string

/-- The child of a node under a name; if there is none, the one of the base or a new one. -/
def childOr (s : Schema) (base : Option Schema) (name : String) (new : Schema) : Schema :=
  (s.property? name).getD ((base.bind fun b => b.property? name).getD new)

/-- A node with a required child. -/
def withChild (s : Schema) (name : String) (child : Schema) : Schema :=
  { s.require name with properties := Keyed.insert name child s.properties }

/-- Adds the rule's keywords below a node, the base schema at that node beside it. -/
def addAlong (r : Rule) (s : Schema) (base : Option Schema) :
    List String → Except OperatorMismatch Schema
  | [] => .ok s
  | [name] =>
    let leaf := s.childOr base name (bare (leafKind r))
    (r.fragmentFor (some leaf.kind)).map fun fragment =>
      s.withChild name { leaf with constraints := leaf.constraints.overlay fragment }
  | name :: rest =>
    let child := s.childOr base name (bare .object)
    (addAlong r child (base.bind fun b => b.property? name) rest).map (s.withChild name)

def addRule (base s : Schema) (r : Rule) : Except CompileError Schema :=
  match r.path with
  | .error e => .error ⟨r.id, .shape e⟩
  | .ok path => match addAlong r s (some base) path.segments with
    | .error e => .error ⟨r.id, .operatorMismatch e⟩
    | .ok s => .ok s

/-- The schema of the rules in their order. The first rule without a schema is the error. -/
def ofRules (base : Schema) (rules : List Rule) : Except CompileError Schema :=
  rules.foldlM (addRule base) (bare .object)

end Schema

end RuleSchema
