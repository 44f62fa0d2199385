import RuleSchema.Resolution
import RuleSchema.Schema.Infer
/-! Schemas as trees: induction over them, walks along paths, and the order of keys at every
node. A schema that a document shows has a node exactly where the document has a value. -/
namespace RuleSchema

section Walk
variable {α : Type} (step : α → String → Option α)

theorem walkLost (path : List String) :
    path.foldl (fun v name => v.bind fun v => step v name) none = none := by
  induction path with
  | nil => rfl
  | cons name rest ih => exact ih

theorem walkCons (v : α) (name : String) (rest : List String) :
    (name :: rest).foldl (fun v name => v.bind fun v => step v name) (some v) =
      (step v name).bind fun w =>
        rest.foldl (fun v name => v.bind fun v => step v name) (some w) := by
  rw [List.foldl_cons, Option.bind_some]
  cases step v name with
  | none => exact walkLost step rest
  | some w => rfl

end Walk

namespace Json

@[simp]
theorem memberNil (v : Json) : v.member? [] = some v := rfl

theorem memberCons (v : Json) (name : String) (rest : List String) :
    v.member? (name :: rest) = (v.get? name).bind fun w => w.member? rest :=
  walkCons Json.get? v name rest

end Json

namespace Schema

/-- What holds of a node when it holds of its properties and its items holds everywhere. -/
@[elab_as_elim]
theorem treeInduction {motive : Schema → Prop}
    (node : ∀ s : Schema, (∀ p ∈ s.properties, motive p.2) →
      (∀ t, s.items = some t → motive t) → motive s)
    (s : Schema) : motive s := by
  refine node s (fun p inside => ?_) (fun t found => ?_)
  · exact treeInduction node p.2
  · exact treeInduction node t
termination_by sizeOf s
decreasing_by
  · obtain ⟨kind, properties, required, items, format, constraints⟩ := s
    obtain ⟨name, child⟩ := p
    have smaller := List.sizeOf_lt_of_mem inside
    simp only [Prod.mk.sizeOf_spec] at smaller
    simp only [Schema.mk.sizeOf_spec]
    omega
  · obtain ⟨kind, properties, required, items, format, constraints⟩ := s
    subst found
    simp only [Schema.mk.sizeOf_spec, Option.some.sizeOf_spec]
    omega

@[simp]
theorem atNil (s : Schema) : s.at? [] = some s := rfl

theorem atCons (s : Schema) (name : String) (rest : List String) :
    s.at? (name :: rest) = (s.property? name).bind fun child => child.at? rest :=
  walkCons Schema.property? s name rest

theorem orderedProperties {properties : List (String × Schema)} :
    OrderedProperties properties ↔ ∀ p ∈ properties, p.2.Ordered := by
  induction properties with
  | nil => simp [OrderedProperties]
  | cons p rest ih =>
    obtain ⟨name, child⟩ := p
    simp [OrderedProperties, ih]

theorem orderedNode {s : Schema} : s.Ordered ↔
    Keyed.Ordered s.properties ∧ (∀ p ∈ s.properties, p.2.Ordered) ∧ OrderedItems s.items ∧
      Json.OrderedElements (s.constraints.allowed.getD []) ∧
      Json.OrderedElements (s.constraints.forbidden.getD []) := by
  rw [← orderedProperties]
  obtain ⟨kind, properties, required, items, format, constraints⟩ := s
  rfl

theorem Ordered.keys {s : Schema} (ordered : s.Ordered) : Keyed.Ordered s.properties :=
  (orderedNode.mp ordered).1

theorem Ordered.child {s child : Schema} {name : String} (ordered : s.Ordered)
    (found : s.property? name = some child) : child.Ordered :=
  (orderedNode.mp ordered).2.1 (name, child) (Keyed.memOfGet found)

theorem bareOrdered (kind : Kind) : (bare kind).Ordered :=
  orderedNode.mpr ⟨List.Pairwise.nil, nofun, trivial, trivial, trivial⟩

end Schema

end RuleSchema
