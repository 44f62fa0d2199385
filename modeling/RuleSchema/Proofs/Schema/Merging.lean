import RuleSchema.Proofs.Schema.Tree
import RuleSchema.Schema.Merge
/-! Laws of laying one schema over another, on any two trees. A child has what both sides make of
it, so merging is associative, and a schema laid over itself or laid on twice changes nothing. -/
namespace RuleSchema

namespace Constraints

@[simp]
theorem overlayEmpty (c : Constraints) : c.overlay .empty = c := rfl

@[simp]
theorem overlaySelf (c : Constraints) : c.overlay c = c := by
  obtain ⟨minimum, maximum, exclusiveMinimum, exclusiveMaximum, allowed, forbidden⟩ := c
  cases minimum <;> cases maximum <;> cases allowed <;> cases forbidden <;> simp [overlay]

theorem overlayAssoc (c d e : Constraints) :
    c.overlay (d.overlay e) = (c.overlay d).overlay e := by
  obtain ⟨minimum, maximum, exclusiveMinimum, exclusiveMaximum, allowed, forbidden⟩ := e
  cases minimum <;> cases maximum <;> simp [overlay, Option.or_assoc]

end Constraints

namespace Schema

theorem inAddNames {names more : List String} {name : String} :
    name ∈ more.foldl addName names ↔ name ∈ names ∨ name ∈ more := by
  induction more generalizing names with
  | nil => simp
  | cons first rest ih =>
    rw [List.foldl_cons, ih, inAddName, List.mem_cons]
    constructor <;> grind

theorem addNamesThere {names more : List String} (there : ∀ name ∈ more, name ∈ names) :
    more.foldl addName names = names := by
  induction more generalizing names with
  | nil => rfl
  | cons first rest ih =>
    have known : addName names first = names := by simp [addName, there first List.mem_cons_self]
    rw [List.foldl_cons, known]
    exact ih fun name inside => there name (List.mem_cons_of_mem first inside)

theorem addNamesAdd (names more : List String) (name : String) :
    (addName more name).foldl addName names = addName (more.foldl addName names) name := by
  by_cases inside : name ∈ more
  · have there : name ∈ more.foldl addName names := inAddNames.mpr (.inr inside)
    simp [addName, inside, there]
  · simp [addName, inside]

theorem addNamesAssoc (first second third : List String) :
    third.foldl addName (second.foldl addName first) =
      (third.foldl addName second).foldl addName first := by
  induction third generalizing second with
  | nil => rfl
  | cons name rest ih => rw [List.foldl_cons, List.foldl_cons, ← ih, addNamesAdd]

theorem mergeFields (s upper : Schema) : merge s upper =
    ⟨s.kind, mergeProperties s.properties upper.properties,
      upper.required.foldl addName s.required, s.items.or upper.items, s.format.or upper.format,
      s.constraints.overlay upper.constraints⟩ := by
  obtain ⟨kind, properties, required, items, format, constraints⟩ := upper
  simp [merge]

theorem mergeBare (s : Schema) (kind : Kind) : merge s (bare kind) = s := by
  obtain ⟨own, properties, required, items, format, constraints⟩ := s
  simp [mergeFields, bare, mergeProperties]

theorem mergePropertiesOrdered {properties : List (String × Schema)}
    (ordered : Keyed.Ordered properties) (upper : List (String × Schema)) :
    Keyed.Ordered (mergeProperties properties upper) := by
  induction upper generalizing properties with
  | nil => exact ordered
  | cons p rest ih => exact ih (Keyed.insertOrdered ordered p.1 _)

theorem getMergeProperties (properties : List (String × Schema))
    {upper : List (String × Schema)} (ordered : Keyed.Ordered upper) (name : String) :
    Keyed.get? (mergeProperties properties upper) name =
      (Keyed.get? properties name).merge merge (Keyed.get? upper name) := by
  induction upper generalizing properties with
  | nil => exact Option.merge_none_right.symm
  | cons p rest ih =>
    obtain ⟨first, t⟩ := p
    have fresh : Keyed.get? rest first = none := Keyed.getNone.mpr (Keyed.headKeyFresh ordered)
    rw [mergeProperties, ih _ (List.pairwise_cons.mp ordered).2, Keyed.getInsert, Keyed.get?]
    by_cases same : first = name
    · subst same
      rw [fresh]
      cases own : Keyed.get? properties first <;> simp
    · simp [same]

theorem propertyMerge (s : Schema) {upper : Schema} (ordered : Keyed.Ordered upper.properties)
    (name : String) :
    (merge s upper).property? name =
      (s.property? name).merge merge (upper.property? name) := by
  rw [mergeFields]
  exact getMergeProperties s.properties ordered name

@[simp]
theorem mergeSelf {s : Schema} (ordered : s.Ordered) : merge s s = s := by
  induction s using treeInduction with
  | node s children _ =>
    have properties : mergeProperties s.properties s.properties = s.properties := by
      refine Keyed.orderedExt (mergePropertiesOrdered ordered.keys _) ordered.keys fun name => ?_
      rw [getMergeProperties _ ordered.keys]
      cases found : Keyed.get? s.properties name with
      | none => rfl
      | some child =>
        exact congrArg some (children (name, child) (Keyed.memOfGet found) (ordered.child found))
    have required : s.required.foldl addName s.required = s.required :=
      addNamesThere fun _ inside => inside
    obtain ⟨kind, children, names, items, format, constraints⟩ := s
    rw [mergeFields, properties, required]
    simp

theorem mergePropertiesInsert {properties upper : List (String × Schema)}
    (ordered : Keyed.Ordered properties) (upperOrdered : Keyed.Ordered upper)
    (name : String) (t : Schema) :
    mergeProperties properties (Keyed.insert name t upper) =
      Keyed.insert name (((Keyed.get? properties name).map fun s => merge s t).getD t)
        (mergeProperties properties upper) := by
  refine Keyed.orderedExt (mergePropertiesOrdered ordered _)
    (Keyed.insertOrdered (mergePropertiesOrdered ordered _) _ _) fun key => ?_
  rw [getMergeProperties _ (Keyed.insertOrdered upperOrdered _ _), Keyed.getInsert,
    Keyed.getInsert, getMergeProperties _ upperOrdered]
  by_cases same : name = key
  · subst same
    cases Keyed.get? properties name <;> simp
  · simp [same]

theorem mergePropertiesAssoc {lower middle upper : List (String × Schema)}
    (ordered : Keyed.Ordered lower) (middleOrdered : Keyed.Ordered middle)
    (upperOrdered : Keyed.Ordered upper)
    (each : ∀ name s t u, Keyed.get? lower name = some s → Keyed.get? middle name = some t →
      Keyed.get? upper name = some u → merge (merge s t) u = merge s (merge t u)) :
    mergeProperties (mergeProperties lower middle) upper =
      mergeProperties lower (mergeProperties middle upper) := by
  have between := mergePropertiesOrdered middleOrdered upper
  refine Keyed.orderedExt (mergePropertiesOrdered (mergePropertiesOrdered ordered _) _)
    (mergePropertiesOrdered ordered _) fun name => ?_
  rw [getMergeProperties _ upperOrdered, getMergeProperties _ middleOrdered,
    getMergeProperties _ between, getMergeProperties _ upperOrdered]
  -- A child that one side lacks is the merge of the other two, in either order.
  cases low : Keyed.get? lower name with
  | none => simp
  | some s => cases mid : Keyed.get? middle name with
    | none => simp
    | some t => cases top : Keyed.get? upper name with
      | none => simp
      | some u => exact congrArg some (each name s t u low mid top)

theorem mergeAssoc {lower middle upper : Schema} (ordered : lower.Ordered)
    (middleOrdered : middle.Ordered) (upperOrdered : upper.Ordered) :
    merge (merge lower middle) upper = merge lower (merge middle upper) := by
  induction upper using treeInduction generalizing lower middle with
  | node upper children _ =>
    have properties := mergePropertiesAssoc ordered.keys middleOrdered.keys upperOrdered.keys
      fun name s t u low mid top => children (name, u) (Keyed.memOfGet top) (ordered.child low)
        (middleOrdered.child mid) (upperOrdered.child top)
    simp only [mergeFields, properties, addNamesAssoc, Option.or_assoc, Constraints.overlayAssoc]

/-- Merging on trees of any origin: laying a schema on again changes nothing, a schema laid over
itself is itself, and of three schemas it does not matter which two are merged first. -/
theorem mergeLaws {lower middle upper : Schema} (ordered : lower.Ordered)
    (middleOrdered : middle.Ordered) (upperOrdered : upper.Ordered) :
    merge (merge lower middle) middle = merge lower middle ∧
    merge middle middle = middle ∧
    merge (merge lower middle) upper = merge lower (merge middle upper) := by
  have self := mergeSelf middleOrdered
  refine ⟨?_, self, mergeAssoc ordered middleOrdered upperOrdered⟩
  rw [mergeAssoc ordered middleOrdered middleOrdered, self]

end Schema

namespace Sample
open Schema

/-- A flag without its bound, and a name required twice. -/
def lower : Schema :=
  { bare .object with
    properties := [("paid", { bare .number with
      constraints := { Constraints.empty with exclusiveMinimum := some true } })]
    required := ["paid", "paid"] }

def middle : Schema :=
  { bare .string with
    properties := [
      ("paid", { bare .integer with
        constraints := { Constraints.empty with minimum := some (.zero false) } }),
      ("tax", { bare .object with properties := [("rate", bare .number)], required := ["rate"] })]
    required := ["tax", "paid", "tax"]
    items := some (bare .null)
    format := some "date" }

def upper : Schema :=
  { bare .array with
    properties := [
      ("tax", { bare .null with
        properties := [("rate", { bare .string with
          constraints := { Constraints.empty with exclusiveMaximum := some false } })]
        required := ["base", "rate"] }),
      ("zone", bare .string)]
    required := ["zone", "zone"]
    items := some (bare .object) }

end Sample

namespace Schema

open Sample in
theorem mergeLawsRepeated : (lower.Ordered ∧ middle.Ordered ∧ upper.Ordered) ∧
    merge (merge lower middle) middle = merge lower middle ∧
    merge middle middle = middle ∧
    merge (merge lower middle) upper = merge lower (merge middle upper) := by
  have ordered : lower.Ordered ∧ middle.Ordered ∧ upper.Ordered := by
    simp only [lower, middle, upper, bare, Ordered, OrderedProperties, OrderedItems,
      Constraints.empty, Option.getD_none, Json.OrderedElements, Keyed.Ordered, Keyed.keys]
    decide
  exact ⟨ordered, mergeLaws ordered.1 ordered.2.1 ordered.2.2⟩

end Schema

end RuleSchema
