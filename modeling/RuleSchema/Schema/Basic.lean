import RuleSchema.Schema.Constraints
import RuleSchema.Schema.Kind
/-! Schema trees: one kind a node, named properties in key order, names that must be present,
a schema for array elements, a text format and constraints. -/
namespace RuleSchema

structure Schema where
  kind : Kind
  properties : List (String × Schema)
  required : List String
  items : Option Schema
  format : Option String
  constraints : Constraints
  deriving Repr

namespace Schema

mutual
def decideEq : (a b : Schema) → Decidable (a = b)
  | ⟨k, ps, r, i, f, c⟩, ⟨l, qs, s, j, g, d⟩ =>
    match decideProperties ps qs, decideItems i j with
    | .isTrue hp, .isTrue hi =>
      if rest : k = l ∧ r = s ∧ f = g ∧ c = d then .isTrue (by simp_all)
      else .isFalse (by simp_all)
    | .isFalse h, _ | _, .isFalse h => .isFalse (by simp_all)
termination_by structural a => a

def decideProperties : (a b : List (String × Schema)) → Decidable (a = b)
  | [], [] => .isTrue rfl
  | (k, x) :: xs, (l, y) :: ys => match decideEq x y, decideProperties xs ys with
    | .isTrue h, .isTrue t =>
      if key : k = l then .isTrue (by rw [h, t, key]) else .isFalse (by simp_all)
    | .isFalse h, _ | _, .isFalse h => .isFalse (by simp_all)
  | [], _ :: _ | _ :: _, [] => .isFalse nofun
termination_by structural a => a

def decideItems : (a b : Option Schema) → Decidable (a = b)
  | none, none => .isTrue rfl
  | some x, some y => match decideEq x y with
    | .isTrue h => .isTrue (by rw [h])
    | .isFalse h => .isFalse (by simpa)
  | none, some _ | some _, none => .isFalse nofun
termination_by structural a => a
end

instance : DecidableEq Schema := decideEq

def bare (kind : Kind) : Schema := ⟨kind, [], [], none, none, .empty⟩

instance : Inhabited Schema := ⟨bare .object⟩

def arrayOf (items : Schema) : Schema := { bare .array with items := some items }

def isObject (s : Schema) : Bool := s.kind == .object

def property? (s : Schema) (name : String) : Option Schema := Keyed.get? s.properties name

/-- A list of names with one more, unless it is there. -/
def addName (names : List String) (name : String) : List String :=
  if names.contains name then names else names ++ [name]

theorem inAddName {names : List String} {name other : String} :
    other ∈ addName names name ↔ other ∈ names ∨ other = name := by
  unfold addName
  split
  · rename_i there
    have inside : name ∈ names := by simpa using there
    exact ⟨.inl, fun either => either.elim id fun same => same ▸ inside⟩
  · simp

def require (s : Schema) (name : String) : Schema :=
  { s with required := addName s.required name }

/-- The node under a path of property names. -/
def at? (s : Schema) (path : List String) : Option Schema :=
  path.foldl (fun s name => s.bind fun s => s.property? name) (some s)

mutual
/-- Every node has its properties in key order, each name once, and its values ordered. -/
def Ordered : Schema → Prop
  | ⟨_, ps, _, i, _, c⟩ =>
    Keyed.Ordered ps ∧ OrderedProperties ps ∧ OrderedItems i ∧
      Json.OrderedElements (c.allowed.getD []) ∧ Json.OrderedElements (c.forbidden.getD [])
termination_by structural s => s

def OrderedProperties : List (String × Schema) → Prop
  | [] => True
  | (_, s) :: ps => Ordered s ∧ OrderedProperties ps
termination_by structural s => s

def OrderedItems : Option Schema → Prop
  | none => True
  | some s => Ordered s
termination_by structural s => s
end

end Schema

end RuleSchema
