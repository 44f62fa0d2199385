import RuleSchema.Proofs.Schema.Tree
import RuleSchema.Proofs.Text.Paths
import RuleSchema.Schema.Fields
/-! What is listed of a schema. Every listed path is the dotted text of a route of names; routes
also go through the items of arrays, where paths are not followed, and everything that can be
followed is a route. -/
namespace RuleSchema

namespace Schema

/-- The text of names below the root. -/
def dotted (names : List String) : String := names.foldl under ""

theorem foldlUnder {path : String} (some : path ≠ "") (names : List String) :
    names.foldl under path = Text.joined '.' (path :: names) := by
  induction names generalizing path with
  | nil => simp [Text.joined, Text.joinChars]
  | cons name rest ih =>
    have below : under path name = path ++ "." ++ name := if_neg some
    have filled : path ++ "." ++ name ≠ "" := by simp [String.append_eq_empty_iff]
    rw [List.foldl_cons, below, ih filled, Text.joinedMerge]

theorem dottedJoined {names : List String} (first : ∀ name, names.head? = some name → name ≠ "") :
    dotted names = Text.joined '.' names := by
  cases names with
  | nil => rfl
  | cons name rest => exact foldlUnder (first name rfl) rest

mutual
/-- The names on the way to every listed path, one list a path. -/
def routes : Schema → List (List String)
  | ⟨_, properties, _, _, _, _⟩ => propertyRoutes properties
termination_by structural s => s

def propertyRoutes : List (String × Schema) → List (List String)
  | [] => []
  | (name, s) :: rest =>
    ([] :: (routes s ++ elementRoutes s)).map (name :: ·) ++ propertyRoutes rest
termination_by structural s => s

def elementRoutes : Schema → List (List String)
  | ⟨_, _, _, items, _, _⟩ => itemRoutes items
termination_by structural s => s

def itemRoutes : Option Schema → List (List String)
  | none => []
  | some s => routes s
termination_by structural s => s
end

mutual
theorem fieldsUnderRoutes (path : String) :
    (s : Schema) → fieldsUnder path s = (routes s).map (·.foldl under path)
  | ⟨_, properties, _, _, _, _⟩ => propertyFieldsRoutes path properties
termination_by structural s => s

theorem propertyFieldsRoutes (path : String) : (properties : List (String × Schema)) →
    propertyFields path properties = (propertyRoutes properties).map (·.foldl under path)
  | [] => rfl
  | (name, s) :: rest => by
    rw [propertyFields, propertyRoutes, fieldsUnderRoutes _ s, elementFieldsRoutes _ s,
      propertyFieldsRoutes path rest]
    simp [Function.comp_def]
termination_by structural s => s

theorem elementFieldsRoutes (path : String) :
    (s : Schema) → elementFields path s = (elementRoutes s).map (·.foldl under path)
  | ⟨_, _, _, items, _, _⟩ => itemFieldsRoutes path items
termination_by structural s => s

theorem itemFieldsRoutes (path : String) :
    (items : Option Schema) → itemFields path items = (itemRoutes items).map (·.foldl under path)
  | none => rfl
  | some s => fieldsUnderRoutes path s
termination_by structural s => s
end

theorem fieldPathsRoutes (s : Schema) : s.fieldPaths = s.routes.map dotted :=
  fieldsUnderRoutes "" s

theorem propertyRoutesEq (properties : List (String × Schema)) :
    propertyRoutes properties = properties.flatMap fun p =>
      ([] :: (p.2.routes ++ itemRoutes p.2.items)).map (p.1 :: ·) := by
  induction properties with
  | nil => rfl
  | cons p rest ih =>
    obtain ⟨name, kind, properties, required, items, format, constraints⟩ := p
    rw [propertyRoutes, ih]
    rfl

theorem routesEq (s : Schema) : s.routes = s.properties.flatMap fun p =>
    ([] :: (p.2.routes ++ itemRoutes p.2.items)).map (p.1 :: ·) := by
  obtain ⟨kind, properties, required, items, format, constraints⟩ := s
  exact propertyRoutesEq properties

theorem routeFilled {s : Schema} {names : List String} (inside : names ∈ s.routes) :
    names ≠ [] := by
  rintro rfl
  rw [routesEq] at inside
  simp at inside

/-- A route ends at a property, or goes on in the property's own properties or in those of its
items. -/
theorem inRoutes {s : Schema} {name : String} {rest : List String} : name :: rest ∈ s.routes ↔
    ∃ child, (name, child) ∈ s.properties ∧
      (rest = [] ∨ rest ∈ child.routes ∨ rest ∈ itemRoutes child.items) := by
  rw [routesEq, List.mem_flatMap]
  constructor
  · rintro ⟨⟨own, child⟩, inside, goes⟩
    obtain ⟨_, below, same⟩ := List.mem_map.mp goes
    cases same
    exact ⟨child, inside, by simpa using below⟩
  · rintro ⟨child, inside, goes⟩
    exact ⟨(name, child), inside, List.mem_map.mpr ⟨rest, by simpa using goes, rfl⟩⟩

theorem routeOfAt {s node : Schema} {names : List String} (below : names ≠ [])
    (found : s.at? names = some node) : names ∈ s.routes := by
  induction names generalizing s with
  | nil => contradiction
  | cons name rest ih =>
    rw [atCons, Option.bind_eq_some_iff] at found
    obtain ⟨child, there, found⟩ := found
    refine inRoutes.mpr ⟨child, Keyed.memOfGet there, ?_⟩
    by_cases last : rest = []
    · exact .inl last
    · exact .inr (.inl (ih last found))

/-- A node without items whose properties all have plain names. -/
structure PlainNode (node : Schema) : Prop where
  items : node.items = none
  names : ∀ name ∈ Keyed.keys node.properties, FieldPath.Plain name

def PlainNodes (s : Schema) : Prop := ∀ place node, s.at? place = some node → node.PlainNode

theorem PlainNodes.child {s child : Schema} {name : String} (plain : s.PlainNodes)
    (found : s.property? name = some child) : child.PlainNodes := by
  intro place node there
  refine plain (name :: place) node ?_
  rw [atCons, found]
  exact there

theorem plainNodes {s : Schema} (items : s.items = none)
    (each : ∀ p ∈ s.properties, FieldPath.Plain p.1 ∧ p.2.PlainNodes) : s.PlainNodes := by
  rintro (_ | ⟨name, place⟩) node found
  · cases found
    refine ⟨items, fun name inside => ?_⟩
    obtain ⟨p, there, rfl⟩ := List.mem_map.mp inside
    exact (each p there).1
  · rw [atCons, Option.bind_eq_some_iff] at found
    obtain ⟨child, there, found⟩ := found
    exact (each _ (Keyed.memOfGet there)).2 place node found

theorem routeResolves {s : Schema} (ordered : s.Ordered) (plain : s.PlainNodes)
    {names : List String} (listed : names ∈ s.routes) :
    (s.at? names).isSome ∧ ∀ name ∈ names, FieldPath.Plain name := by
  induction names generalizing s with
  | nil => exact absurd rfl (routeFilled listed)
  | cons name rest ih =>
    obtain ⟨child, inside, goes⟩ := inRoutes.mp listed
    have found : s.property? name = some child := Keyed.getOfMem ordered.keys inside
    have own : FieldPath.Plain name :=
      (plain [] s (atNil s)).names name (List.mem_map.mpr ⟨_, inside, rfl⟩)
    have below := plain.child found
    rw [atCons, found, Option.bind_some]
    rcases goes with rfl | deeper | behind
    · exact ⟨rfl, by simpa using own⟩
    · obtain ⟨resolves, others⟩ := ih (ordered.child found) below deeper
      exact ⟨resolves, List.forall_mem_cons.mpr ⟨own, others⟩⟩
    · rw [(below [] child (atNil child)).items] at behind
      cases behind

theorem routesNodup {s : Schema} (ordered : s.Ordered) (plain : s.PlainNodes) :
    s.routes.Nodup := by
  induction s using treeInduction with
  | node s properties _ =>
    rw [routesEq, List.Nodup, List.pairwise_flatMap]
    constructor
    · rintro ⟨name, child⟩ inside
      have found : s.property? name = some child := Keyed.getOfMem ordered.keys inside
      have below := plain.child found
      have single : ([] :: (child.routes ++ itemRoutes child.items)).Nodup := by
        rw [(below [] child (atNil child)).items, itemRoutes, List.append_nil, List.nodup_cons]
        exact ⟨fun empty => routeFilled empty rfl,
          properties _ inside (ordered.child found) below⟩
      refine List.pairwise_map.mpr (single.imp fun differs same => differs ?_)
      exact (List.cons.inj same).2
    · -- Routes through different properties part at their first name.
      refine (List.pairwise_map.mp ordered.keys).imp fun less => ?_
      rintro _ one _ other rfl
      obtain ⟨_, _, rfl⟩ := List.mem_map.mp one
      obtain ⟨_, _, same⟩ := List.mem_map.mp other
      exact String.lt_irrefl _ ((List.cons.inj same).1 ▸ less)

/-- Every path that can be followed is listed. Without items and with plain names nothing else
is, and each path once. -/
theorem fieldPathsResolve (s : Schema) :
    (∀ path : FieldPath, (s.at? path.segments).isSome → path.text ∈ s.fieldPaths) ∧
    (s.Ordered → s.PlainNodes → s.fieldPaths.Nodup ∧
      ∀ t, t ∈ s.fieldPaths ↔
        ∃ path, FieldPath.parse t = .ok path ∧ path.text = t ∧
          (s.at? path.segments).isSome) := by
  have listed : ∀ path : FieldPath, (s.at? path.segments).isSome → path.text ∈ s.fieldPaths := by
    intro path found
    obtain ⟨node, found⟩ := Option.isSome_iff_exists.mp found
    rw [fieldPathsRoutes]
    refine List.mem_map.mpr ⟨path.segments, routeOfAt path.nonempty found, ?_⟩
    exact dottedJoined fun name head => path.named name (List.mem_of_head? head)
  refine ⟨listed, fun ordered plain => ?_⟩
  have written : ∀ names ∈ s.routes, dotted names = Text.joined '.' names := fun names inside =>
    dottedJoined fun name head =>
      ((routeResolves ordered plain inside).2 name (List.mem_of_head? head)).nonempty
  have read : ∀ names ∈ s.routes, Text.fields '.' (dotted names) = names := by
    intro names inside
    rw [written names inside]
    exact Text.fieldsJoined (routeFilled inside) fun name there =>
      ((routeResolves ordered plain inside).2 name there).undotted
  constructor
  · rw [fieldPathsRoutes]
    refine List.pairwise_map.mpr ((routesNodup ordered plain).imp_of_mem ?_)
    intro one other inside there differs same
    exact differs (by rw [← read one inside, same, read other there])
  · intro t
    constructor
    · intro inside
      rw [fieldPathsRoutes] at inside
      obtain ⟨names, route, rfl⟩ := List.mem_map.mp inside
      obtain ⟨resolves, plainNames⟩ := routeResolves ordered plain route
      rw [written names route]
      exact ⟨_, FieldPath.parseJoined (routeFilled route)
        (fun name there => (plainNames name there).toSegment)
        (FieldPath.plainTrimmed plainNames), rfl, resolves⟩
    · rintro ⟨path, _, rfl, found⟩
      exact listed path found

end Schema

namespace Sample
open Schema

/-- Names with blanks and marks inside, one of them at two depths. -/
def parcel : Schema :=
  { bare .object with
    properties := [
      ("net weight", { bare .object with
        properties := [("kg", bare .number), ("net weight", bare .number)] }),
      ("to/from", bare .string)] }

theorem parcelOrdered : parcel.Ordered := by
  simp only [parcel, bare, Ordered, OrderedProperties, OrderedItems, Json.OrderedElements,
    Keyed.Ordered, Keyed.keys, Constraints.empty, Option.getD_none]
  decide

theorem parcelPlain : parcel.PlainNodes := by
  have leaf : ∀ kind, (bare kind).PlainNodes := fun kind => plainNodes rfl nofun
  refine plainNodes rfl (List.forall_mem_cons.mpr ⟨⟨⟨⟨by decide, by decide⟩, by decide⟩,
    plainNodes rfl ?_⟩, List.forall_mem_singleton.mpr
      ⟨⟨⟨by decide, by decide⟩, by decide⟩, leaf .string⟩⟩)
  exact List.forall_mem_cons.mpr ⟨⟨⟨⟨by decide, by decide⟩, by decide⟩, leaf .number⟩,
    List.forall_mem_singleton.mpr ⟨⟨⟨by decide, by decide⟩, by decide⟩, leaf .number⟩⟩

end Sample

open Sample in
theorem Schema.fieldPathsResolveParcel :
    parcel.fieldPaths = ["net weight", "net weight.kg", "net weight.net weight", "to/from"] ∧
    parcel.fieldPaths.Nodup ∧
    ∀ t, t ∈ parcel.fieldPaths ↔
      ∃ path, FieldPath.parse t = .ok path ∧ path.text = t ∧
        (parcel.at? path.segments).isSome :=
  ⟨by decide, (fieldPathsResolve parcel).2 parcelOrdered parcelPlain⟩

end RuleSchema
