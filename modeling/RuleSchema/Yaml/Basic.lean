/-! YAML documents as trees. A node may bear a tag, and an anchor to which aliases refer by
number. -/
namespace RuleSchema

namespace Yaml

inductive Style where
  | plain
  | quoted
  | literal
  | folded
  deriving DecidableEq, Repr

structure Property where
  anchor : Option Nat
  tag : Option String
  deriving DecidableEq, Repr

namespace Property

def none : Property := ⟨.none, .none⟩

end Property

end Yaml

inductive Yaml where
  | scalar (property : Yaml.Property) (style : Yaml.Style) (text : String)
  | sequence (property : Yaml.Property) (elements : List Yaml)
  | mapping (property : Yaml.Property) (pairs : List (Yaml × Yaml))
  | aliasTo (anchor : Nat)
  deriving Repr

namespace Yaml

def blank : Yaml := .scalar .none .plain ""

instance : Inhabited Yaml := ⟨blank⟩

def property : Yaml → Property
  | .scalar p _ _ => p
  | .sequence p _ => p
  | .mapping p _ => p
  | .aliasTo _ => .none

/-- The node under the number of its anchor, if it bears one. -/
def bearing (v : Yaml) : List (Nat × Yaml) := (v.property.anchor.map fun n => (n, v)).toList

mutual
/-- Nodes with anchors, in the order in which they begin. -/
def anchored : Yaml → List (Nat × Yaml)
  | .scalar p style text => bearing (.scalar p style text)
  | .sequence p elements => bearing (.sequence p elements) ++ anchoredElements elements
  | .mapping p pairs => bearing (.mapping p pairs) ++ anchoredPairs pairs
  | .aliasTo _ => []

def anchoredElements : List Yaml → List (Nat × Yaml)
  | [] => []
  | v :: rest => anchored v ++ anchoredElements rest

def anchoredPairs : List (Yaml × Yaml) → List (Nat × Yaml)
  | [] => []
  | (k, v) :: rest => anchored k ++ anchored v ++ anchoredPairs rest
end

/-- The node that an alias in the tree means: of nodes under one number the last to begin. -/
def target (root : Yaml) : Yaml → Yaml
  | .aliasTo n =>
    ((root.anchored.reverse.find? fun p => p.1 == n).map Prod.snd).getD (.aliasTo n)
  | v => v

end Yaml

end RuleSchema
