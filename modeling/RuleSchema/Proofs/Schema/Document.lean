import RuleSchema.Proofs.Json.Ordered
import RuleSchema.Proofs.Schema.Tree
import RuleSchema.Schema.Document
/-! Schemas and their documents. Reading the document a schema is written as gives the schema
again, and the document has its members in key order if the schema has. -/
namespace RuleSchema

namespace Keyed
variable {α : Type}

theorem getAppend (m n : Keyed α) (key : String) :
    get? (m ++ n) key = (get? m key).or (get? n key) := by
  induction m with
  | nil => rfl
  | cons p rest ih =>
    obtain ⟨k, v⟩ := p
    by_cases same : k = key <;> simp [get?, same, ih]

end Keyed

namespace Constraints

theorem getKeyword {α : Type} (key other : String) (write : α → Json) (v : Option α) :
    Keyed.get? (keyword key write v) other = if key = other then v.map write else none := by
  cases v with
  | none => simp [keyword, Keyed.get?]
  | some x => simp [keyword, Keyed.get?]

theorem optionalMap {α : Type} {read : Json → Option α} {write : α → Json}
    (inverse : ∀ x, read (write x) = some x) (notNull : ∀ x, write x ≠ .null) (v : Option α) :
    Json.optional? read (v.map write) = some v := by
  cases v with
  | none => rfl
  | some x =>
    rw [Option.map_some, Json.optional?]
    · rw [inverse]
      rfl
    · exact notNull x

end Constraints

namespace Schema

theorem propertyMembersEq (properties : List (String × Schema)) :
    propertyMembers properties = properties.map fun p => (p.1, p.2.toJson) := by
  induction properties with
  | nil => rfl
  | cons p rest ih => exact congrArg (List.cons (p.1, p.2.toJson)) ih

theorem propertyKeys (properties : List (String × Schema)) :
    Keyed.keys (propertyMembers properties) = Keyed.keys properties := by
  simp [propertyMembersEq, Keyed.keys]

theorem propertiesGet (members : List (String × Json)) :
    properties? members = match Keyed.get? members "properties" with
      | some v => named? v
      | none => some [] := by
  induction members with
  | nil => rfl
  | cons p rest ih =>
    obtain ⟨key, v⟩ := p
    by_cases same : key = "properties" <;> simp [properties?, Keyed.get?, same, ih]

theorem itemsGet (members : List (String × Json)) :
    items? members = Json.optional? ofJson? (Keyed.get? members "items") := by
  induction members with
  | nil => rfl
  | cons p rest ih =>
    obtain ⟨key, v⟩ := p
    by_cases same : key = "items"
    · cases v <;> simp [items?, Keyed.get?, same, Json.optional?]
    · simp [items?, Keyed.get?, same, ih]

def writtenMembers (s : Schema) : List (String × Json) :=
  s.constraints.leadingMembers ++ Constraints.keyword "format" Json.string s.format ++
    itemsMember s.items ++ s.constraints.trailingMembers ++
    (if s.properties.isEmpty then []
      else [("properties", .object (propertyMembers s.properties))]) ++
    (if s.required.isEmpty then [] else [("required", .array (s.required.map .string))]) ++
    [("type", .string s.kind.name)]

theorem toJsonMembers (s : Schema) : s.toJson = .object s.writtenMembers := by
  cases s
  rfl

theorem getItemsMember (items : Option Schema) (key : String) :
    Keyed.get? (itemsMember items) key =
      if "items" = key then items.map toJson else none := by
  cases items <;> simp [itemsMember, Keyed.get?]

theorem writtenFields (s : Schema) :
    Keyed.get? s.writtenMembers "type" = some (.string s.kind.name) ∧
    Keyed.get? s.writtenMembers "properties" =
      (if s.properties.isEmpty then none else some (.object (propertyMembers s.properties))) ∧
    Keyed.get? s.writtenMembers "required" =
      (if s.required.isEmpty then none else some (.array (s.required.map .string))) ∧
    Keyed.get? s.writtenMembers "items" = s.items.map toJson ∧
    Keyed.get? s.writtenMembers "format" = s.format.map .string ∧
    Constraints.fieldNames.map (Keyed.get? s.writtenMembers) =
      [s.constraints.minimum.map Constraints.bound, s.constraints.maximum.map Constraints.bound,
        s.constraints.exclusiveMinimum.map .bool, s.constraints.exclusiveMaximum.map .bool,
        s.constraints.allowed.map .array,
        s.constraints.forbidden.map fun values => .object [("enum", .array values)]] := by
  refine ⟨?_, ?_, ?_, ?_, ?_, ?_⟩ <;>
    simp only [Constraints.fieldNames, List.map_cons, List.map_nil, writtenMembers,
      Keyed.getAppend, Constraints.leadingMembers, Constraints.trailingMembers,
      Constraints.getKeyword, getItemsMember] <;>
    cases s.properties <;> cases s.required <;> simp [Keyed.get?]

theorem readTexts (names : List String) :
    Json.textList? (.array (names.map .string)) = some names :=
  Json.readEach fun _ _ => rfl

theorem readNamed {properties : List (String × Schema)}
    (each : ∀ p ∈ properties, ofJson? p.2.toJson = some p.2) :
    namedMembers? (propertyMembers properties) = some properties := by
  induction properties with
  | nil => rfl
  | cons p rest ih =>
    obtain ⟨name, s⟩ := p
    rw [propertyMembers, namedMembers?, each (name, s) List.mem_cons_self,
      ih fun q inside => each q (List.mem_cons_of_mem _ inside)]
    rfl

theorem readConstraints (c : Constraints) : Constraints.ofFields?
    [c.minimum.map Constraints.bound, c.maximum.map Constraints.bound,
      c.exclusiveMinimum.map .bool, c.exclusiveMaximum.map .bool, c.allowed.map .array,
      c.forbidden.map fun values => .object [("enum", .array values)]] = some c := by
  have bound : ∀ v, Json.optional? Constraints.bound? (v.map Constraints.bound) = some v :=
    Constraints.optionalMap (fun _ => rfl) nofun
  have flag : ∀ v, Json.optional? Json.flag? (v.map .bool) = some v :=
    Constraints.optionalMap (fun _ => rfl) nofun
  have values : ∀ v, Json.optional? Json.elementList? (v.map .array) = some v :=
    Constraints.optionalMap (fun _ => rfl) nofun
  have negation : ∀ v : Option (List Json), Json.optional? Constraints.negation?
      (v.map fun values => .object [("enum", .array values)]) = some v :=
    Constraints.optionalMap (fun _ => rfl) nofun
  simp only [Constraints.ofFields?, bound, flag, values, negation]
  rfl

theorem ofJsonToJson (s : Schema) : ofJson? s.toJson = some s := by
  induction s using treeInduction with
  | node s properties items =>
    obtain ⟨kind, named, required, elements, format, constraints⟩ := s.writtenFields
    have readProperties : properties? s.writtenMembers = some s.properties := by
      rw [propertiesGet, named]
      by_cases none : s.properties = []
      · simp [none]
      · rw [if_neg (by simpa using none)]
        exact readNamed properties
    have readRequired : Json.defaulting? [] Json.textList?
        (Keyed.get? s.writtenMembers "required") = some s.required := by
      rw [required]
      by_cases none : s.required = []
      · simp [none, Json.defaulting?]
      · rw [if_neg (by simpa using none)]
        exact readTexts s.required
    have readItems : items? s.writtenMembers = some s.items := by
      rw [itemsGet, elements]
      cases there : s.items with
      | none => rfl
      | some t =>
        have document : t.toJson = .object t.writtenMembers := t.toJsonMembers
        rw [Option.map_some, document, Json.optional?, ← document, items t there]
        · rfl
        · nofun
    have readFormat : Json.optional? Json.text? (Keyed.get? s.writtenMembers "format") =
        some s.format := by
      have texts : ∀ v, Json.optional? Json.text? (v.map .string) = some v :=
        Constraints.optionalMap (fun _ => rfl) nofun
      rw [format]
      exact texts s.format
    have readKind : Json.required? (fun v => v.caseName?.bind Kind.ofName?)
        (Keyed.get? s.writtenMembers "type") = some s.kind := by
      rw [kind]
      exact Kind.ofNameName s.kind
    rw [toJsonMembers, ofJson?, readKind, readProperties, readRequired, readItems, readFormat,
      constraints, readConstraints]
    cases s
    rfl

theorem keywordKeys {α : Type} (key : String) (write : α → Json) (v : Option α) :
    ((Constraints.keyword key write v).map Prod.fst).Sublist [key] := by
  cases v <;> simp [Constraints.keyword]

theorem itemsKeys (items : Option Schema) : ((itemsMember items).map Prod.fst).Sublist ["items"] := by
  cases items <;> simp [itemsMember]

theorem unlessKeys (absent : Bool) (key : String) (v : Json) :
    ((if absent then [] else [(key, v)]).map Prod.fst).Sublist [key] := by
  cases absent <;> simp

theorem writtenOrdered (s : Schema) : Keyed.Ordered s.writtenMembers := by
  have all : (["enum", "exclusiveMaximum", "exclusiveMinimum", "format", "items", "maximum",
      "minimum", "not", "properties", "required", "type"] : List String).Pairwise (· < ·) := by
    decide +kernel
  refine all.sublist ?_
  simp only [writtenMembers, Constraints.leadingMembers, Constraints.trailingMembers,
    Keyed.keys, List.map_append]
  have leading := ((keywordKeys "enum" Json.array s.constraints.allowed).append
    (keywordKeys "exclusiveMaximum" Json.bool s.constraints.exclusiveMaximum)).append
    (keywordKeys "exclusiveMinimum" Json.bool s.constraints.exclusiveMinimum)
  have middle := (leading.append (keywordKeys "format" Json.string s.format)).append
    (itemsKeys s.items)
  have trailing := ((keywordKeys "maximum" Constraints.bound s.constraints.maximum).append
    (keywordKeys "minimum" Constraints.bound s.constraints.minimum)).append
    (keywordKeys "not" (fun values => .object [("enum", .array values)]) s.constraints.forbidden)
  exact (((middle.append trailing).append (unlessKeys _ "properties" _)).append
    (unlessKeys _ "required" _)).append (List.Sublist.refl _)

theorem membersAppend {m n : List (String × Json)} :
    Json.OrderedMembers (m ++ n) ↔ Json.OrderedMembers m ∧ Json.OrderedMembers n := by
  simp [Json.orderedMembers, or_imp, forall_and]

theorem keywordOrdered {α : Type} {key : String} {write : α → Json} {v : Option α}
    (each : ∀ x, v = some x → (write x).Ordered) :
    Json.OrderedMembers (Constraints.keyword key write v) := by
  cases v with
  | none => trivial
  | some x => exact ⟨each x rfl, trivial⟩

theorem toJsonOrdered {s : Schema} (ordered : s.Ordered) : s.toJson.Ordered := by
  induction s using treeInduction with
  | node s properties items =>
    rw [toJsonMembers]
    obtain ⟨keys, children, below, allowed, forbidden⟩ := orderedNode.mp ordered
    refine ⟨s.writtenOrdered, ?_⟩
    have values : ∀ {v : Option (List Json)} {xs : List Json},
        Json.OrderedElements (v.getD []) → v = some xs → Json.OrderedElements xs := by
      rintro _ xs fine rfl
      exact fine
    have named : (Json.object (propertyMembers s.properties)).Ordered := by
      refine ⟨by rw [Keyed.Ordered, propertyKeys]; exact keys, Json.orderedMembers.mpr ?_⟩
      intro p inside
      rw [propertyMembersEq] at inside
      obtain ⟨q, there, rfl⟩ := List.mem_map.mp inside
      exact properties q there (children q there)
    have required : (Json.array (s.required.map .string)).Ordered := by
      refine Json.orderedElements.mpr fun v inside => ?_
      obtain ⟨name, _, rfl⟩ := List.mem_map.mp inside
      trivial
    simp only [writtenMembers, Constraints.leadingMembers, Constraints.trailingMembers,
      membersAppend]
    refine ⟨⟨⟨⟨⟨⟨⟨⟨?enum, ?_⟩, ?_⟩, ?_⟩, ?items⟩, ⟨?_, ?_⟩, ?negation⟩, ?properties⟩, ?required⟩, ?kind⟩
    case enum => exact keywordOrdered fun xs some => values allowed some
    case negation =>
      exact keywordOrdered fun xs some =>
        ⟨List.pairwise_singleton _ _, values forbidden some, trivial⟩
    case items =>
      cases there : s.items with
      | none => trivial
      | some t =>
        rw [there] at below
        exact ⟨items t there below, trivial⟩
    case properties => split <;> trivial
    case required => split <;> trivial
    case kind => exact ⟨trivial, trivial⟩
    all_goals exact keywordOrdered fun _ _ => trivial

end Schema

end RuleSchema
