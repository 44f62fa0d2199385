import RuleSchema.Schema.RuleTree
/-! Laying one schema over another. Kinds stay, required names are added behind those there,
and the keywords laid over win. -/
namespace RuleSchema.Schema

mutual
def merge (s : Schema) : Schema → Schema
  | ⟨_, properties, required, items, format, constraints⟩ =>
    { s with
      properties := mergeProperties s.properties properties
      required := required.foldl addName s.required
      items := s.items <|> items
      format := s.format <|> format
      constraints := s.constraints.overlay constraints }
termination_by structural upper => upper

def mergeProperties (properties : List (String × Schema)) :
    List (String × Schema) → List (String × Schema)
  | [] => properties
  | (name, upper) :: rest =>
    let child := match Keyed.get? properties name with
      | some s => merge s upper
      | none => upper
    mergeProperties (Keyed.insert name child properties) rest
termination_by structural upper => upper
end

/-- The base with the rules laid over it. Rules of which one has no schema leave the base as
it is. -/
def withRules (base : Schema) (rules : List Rule) : Schema :=
  if rules.isEmpty then base
  else match ofRules base rules with
    | .ok upper => merge base upper
    | .error _ => base

end RuleSchema.Schema
