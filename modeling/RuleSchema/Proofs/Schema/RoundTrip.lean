import RuleSchema.Proofs.Schema.Document
/-! Reading and writing schemas in turn. A document that is read gives a schema with its keys in
order, and from the first writing on nothing changes any more: each further reading gives the
same schema and each further writing the same document. -/
namespace RuleSchema

namespace Json

theorem optionalSome {α : Type} {read : Json → Option α} {field : Option Json} {x : α}
    (there : optional? read field = some (some x)) : ∃ v, field = some v ∧ read v = some x := by
  unfold optional? at there
  split at there
  · cases there
  · cases there
  · rename_i v _
    obtain ⟨_, found, same⟩ := Option.map_eq_some_iff.mp there
    cases same
    exact ⟨v, rfl, found⟩

theorem elementListOrdered {v : Json} (ordered : v.Ordered) {values : List Json}
    (read : v.elementList? = some values) : OrderedElements values := by
  unfold elementList? at read
  split at read
  · cases read
    exact ordered
  · cases read

theorem recordFieldsOrdered {v x : Json} (ordered : v.Ordered) {names : List String}
    {fields : List (Option Json)} (read : v.recordFields? names = some fields)
    (inside : some x ∈ fields) : x.Ordered := by
  unfold recordFields? at read
  split at read
  · split at read
    · cases read
      obtain ⟨name, _, found⟩ := List.mem_map.mp inside
      exact orderedGet ordered found
    · cases read
  · rename_i elements
    split at read
    · cases read
      have among : x ∈ elements := by simpa using inside
      exact orderedElements.mp ordered x among
    · cases read
  · cases read

end Json

namespace Constraints

theorem negationOrdered {v : Json} (ordered : v.Ordered) {values : List Json}
    (read : negation? v = some values) : Json.OrderedElements values := by
  unfold negation? at read
  split at read
  · rename_i field fields
    obtain ⟨x, rfl, listed⟩ := Option.bind_eq_some_iff.mp read
    have below := Json.recordFieldsOrdered ordered fields List.mem_cons_self
    exact Json.elementListOrdered below listed
  · cases read

theorem ofFieldsOrdered {members : List (String × Json)}
    (ordered : (Json.object members).Ordered) {c : Constraints}
    (read : ofFields? (fieldNames.map (Keyed.get? members)) = some c) :
    Json.OrderedElements (c.allowed.getD []) ∧ Json.OrderedElements (c.forbidden.getD []) := by
  simp only [fieldNames, List.map_cons, List.map_nil, ofFields?, bind,
    Option.bind_eq_some_iff] at read
  obtain ⟨_, _, _, _, _, _, _, _, allowed, readAllowed, forbidden, readForbidden, same⟩ := read
  cases same
  constructor
  · cases allowed with
    | none => trivial
    | some values =>
      obtain ⟨v, found, listed⟩ := Json.optionalSome readAllowed
      exact Json.elementListOrdered (Json.orderedGet ordered found) listed
  · cases forbidden with
    | none => trivial
    | some values =>
      obtain ⟨v, found, negated⟩ := Json.optionalSome readForbidden
      exact negationOrdered (Json.orderedGet ordered found) negated

end Constraints

namespace Schema

/-- Named schemas are read member by member, under the names of the members. -/
theorem namedMembersOrdered {members : List (String × Json)} {properties : List (String × Schema)}
    (each : ∀ p ∈ members, ∀ s, ofJson? p.2 = some s → s.Ordered)
    (read : namedMembers? members = some properties) :
    Keyed.keys properties = Keyed.keys members ∧ ∀ p ∈ properties, p.2.Ordered := by
  induction members generalizing properties with
  | nil =>
    cases read
    exact ⟨rfl, nofun⟩
  | cons p rest ih =>
    obtain ⟨name, v⟩ := p
    obtain ⟨s, first, read⟩ := Option.bind_eq_some_iff.mp read
    obtain ⟨others, later, same⟩ := Option.map_eq_some_iff.mp read
    cases same
    obtain ⟨keys, below⟩ := ih (fun q inside => each q (List.mem_cons_of_mem _ inside)) later
    refine ⟨congrArg (List.cons name) keys, fun q inside => ?_⟩
    rcases List.mem_cons.mp inside with rfl | there
    · exact each (name, v) List.mem_cons_self s first
    · exact below q there

/-- Of a document in key order the schema is in key order. A value is read as a schema and, under
`properties`, as a list of named schemas, so the induction is on both readings. -/
theorem readOrdered (v : Json) : v.Ordered →
    (∀ s, ofJson? v = some s → s.Ordered) ∧
    ∀ properties, named? v = some properties →
      Keyed.Ordered properties ∧ ∀ p ∈ properties, p.2.Ordered := by
  induction v using Json.valueInduction with
  | null | bool _ | number _ | string _ | array _ _ =>
    refine fun _ => ⟨fun s read => ?_, fun properties read => ?_⟩ <;> cases read
  | object members each =>
    intro ordered
    have below : ∀ p ∈ members, p.2.Ordered := Json.orderedMembers.mp ordered.2
    constructor
    · intro s read
      simp only [ofJson?, bind, Option.bind_eq_some_iff] at read
      obtain ⟨kind, _, properties, named, required, _, items, element, format, _, c, keywords,
        same⟩ := read
      cases same
      obtain ⟨allowed, forbidden⟩ := Constraints.ofFieldsOrdered ordered keywords
      have fields : Keyed.Ordered properties ∧ ∀ p ∈ properties, p.2.Ordered := by
        rw [propertiesGet] at named
        split at named
        · rename_i w found
          have inside := Keyed.memOfGet found
          exact (each _ inside (below _ inside)).2 properties named
        · cases named
          exact ⟨List.Pairwise.nil, List.forall_mem_nil _⟩
      have values : OrderedItems items := by
        cases items with
        | none => trivial
        | some t =>
          rw [itemsGet] at element
          obtain ⟨w, found, single⟩ := Json.optionalSome element
          have inside := Keyed.memOfGet found
          exact (each _ inside (below _ inside)).1 t single
      exact orderedNode.mpr ⟨fields.1, fields.2, values, allowed, forbidden⟩
    · intro properties read
      obtain ⟨keys, children⟩ := namedMembersOrdered
        (fun p inside s => (each p inside (below p inside)).1 s) read
      rw [Keyed.Ordered, keys]
      exact ⟨ordered.1, children⟩

/-- Every schema is read back from the document it is written as, which is in key order if the
schema is. So a document that is read at all is settled by writing what was read. -/
theorem documentSettles :
    (∀ s : Schema, ofJson? s.toJson = some s ∧ (s.Ordered → s.toJson.Ordered)) ∧
    ∀ (document : Json) (s : Schema), ofJson? document = some s →
      (document.Ordered → s.Ordered) ∧ ofJson? s.toJson = some s ∧
        ∀ t, ofJson? s.toJson = some t → t.toJson = s.toJson := by
  refine ⟨fun s => ⟨ofJsonToJson s, toJsonOrdered⟩, fun document s read => ?_⟩
  refine ⟨fun ordered => (readOrdered document ordered).1 s read, ofJsonToJson s, fun t again => ?_⟩
  rw [ofJsonToJson] at again
  cases again
  rfl

end Schema

namespace Sample

/-- A document with an unknown keyword, a null one, an empty list of values, a flag that is off
and a name required twice. -/
def draft : Json := .object
  [("$schema", .string "draft"), ("enum", .array []), ("exclusiveMinimum", .bool false),
    ("format", .null), ("items", .object [("type", .string "null")]),
    ("minimum", .number (.whole ⟨5, by decide⟩)), ("not", .object [("enum", .array [.null])]),
    ("properties", .object [("", .object [("type", .string "object")]),
      ("type", .object [("type", .string "integer")])]),
    ("required", .array [.string "type", .string "type"]), ("type", .string "array")]

end Sample

namespace Schema
open Sample

theorem documentSettlesDraft : ∃ s, ofJson? draft = some s ∧ s.toJson ≠ draft ∧ s.Ordered ∧
    s.toJson.Ordered ∧ ofJson? s.toJson = some s := by
  have changes : (ofJson? draft).map toJson ≠ some draft := by decide +kernel
  have readable : (ofJson? draft).isSome = true := by decide +kernel
  obtain ⟨s, read⟩ := Option.isSome_iff_exists.mp readable
  have ordered : draft.Ordered := by
    simp only [draft, Json.Ordered, Json.OrderedMembers, Json.OrderedElements, Keyed.Ordered,
      Keyed.keys]
    decide
  obtain ⟨written, settled⟩ := documentSettles
  obtain ⟨keys, again, _⟩ := settled draft s read
  refine ⟨s, read, fun same => changes ?_, keys ordered, (written s).2 (keys ordered), again⟩
  rw [read, Option.map_some, same]

end Schema

end RuleSchema
