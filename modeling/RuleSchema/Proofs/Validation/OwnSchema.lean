import RuleSchema.Proofs.Validation.Acceptance
/-! What the schema of a sample finds. It has no keywords, so it finds wrong kinds and missing
names only, and in the sample itself it finds nothing if the elements of each array are alike. -/
namespace RuleSchema

namespace Json
variable (config : Config)

mutual
/-- In each array of a value, every element shows the schema that the first one shows. -/
def Uniform : Json → Prop
  | .array elements =>
    (∀ v ∈ elements, Schema.infer config v = Schema.inferElement config elements) ∧
      UniformElements elements
  | .object members => UniformMembers members
  | .null | .bool _ | .number _ | .string _ => True
termination_by structural v => v

def UniformElements : List Json → Prop
  | [] => True
  | v :: rest => Uniform v ∧ UniformElements rest
termination_by structural v => v

def UniformMembers : List (String × Json) → Prop
  | [] => True
  | (_, v) :: rest => Uniform v ∧ UniformMembers rest
termination_by structural v => v
end

variable {config}

theorem uniformElements {elements : List Json} :
    UniformElements config elements ↔ ∀ v ∈ elements, v.Uniform config := by
  induction elements with
  | nil => simp [UniformElements]
  | cons v rest ih => simp [UniformElements, ih]

theorem uniformMembers {members : List (String × Json)} :
    UniformMembers config members ↔ ∀ p ∈ members, p.2.Uniform config := by
  induction members with
  | nil => simp [UniformMembers]
  | cons p rest ih =>
    obtain ⟨name, v⟩ := p
    simp [UniformMembers, ih]

end Json

namespace Schema
variable {switches : FormatSwitches}

/-- A node without keywords finds a wrong kind and missing names, the rest is found below it. -/
theorem plainFinds {s : Schema} (free : s.constraints = .empty) (unformatted : s.format = none)
    {place : List String} {v : Json} {w : Violation}
    (inside : w ∈ s.violations switches place v) :
    w ∈ itemViolations switches place s.items v ∨
      w ∈ propertyViolations switches place s.properties v ∨
      (∃ name ∈ missingNames s.required v, w.breach = .missing name) ∨
      s.kind.admits v = false ∧ w.breach = .wrongKind s.kind := by
  cases findsOfIn inside with
  | keyword breach =>
    rw [free, Constraints.breachesEmpty] at breach
    cases breach
  | format breach =>
    rw [unformatted] at breach
    cases v <;> cases breach
  | item below => exact .inl below
  | property declared present deeper =>
    exact .inr (.inl (inPropertyViolations.mpr ⟨_, _, _, declared, present, deeper⟩))
  | missing absent => exact .inr (.inr (.inl ⟨_, absent, rfl⟩))
  | kind refused => exact .inr (.inr (.inr ⟨refused, rfl⟩))

theorem bareFinds {kind : Kind} {place : List String} {v : Json} {w : Violation}
    (inside : w ∈ (bare kind).violations switches place v) :
    kind.admits v = false ∧ w.breach = .wrongKind kind := by
  rcases plainFinds rfl rfl inside with below | below | ⟨name, absent, _⟩ | own
  · cases below
  · cases below
  · cases v <;> cases absent
  · exact own

variable {config : Config}

/-- A value breaks nothing of the schema it shows. An element of an array meets the schema of
the first one, for it is its own. -/
theorem ownViolations {v : Json} (ordered : v.Ordered) (uniform : v.Uniform config)
    (place : List String) : (infer config v).violations switches place v = [] := by
  rw [List.eq_nil_iff_forall_not_mem]
  intro w inside
  induction v using Json.valueInduction generalizing place with
  | null | bool _ | number _ | string _ => cases (bareFinds inside).1
  | array elements each =>
    obtain ⟨alike, deeper⟩ := uniform
    rcases plainFinds rfl rfl inside with below | below | ⟨name, absent, _⟩ | ⟨refused, _⟩
    · obtain ⟨⟨x, i⟩, indexed, found⟩ := List.mem_flatMap.mp below
      have among : x ∈ elements := List.fst_mem_of_mem_zipIdx indexed
      rw [← alike x among] at found
      exact each x among (Json.orderedElements.mp ordered x among)
        (Json.uniformElements.mp deeper x among) _ found
    · cases below
    · cases absent
    · cases refused
  | object members each =>
    have values := Json.orderedMembers.mp ordered.2
    rcases plainFinds rfl rfl inside with below | below | ⟨name, absent, _⟩ | ⟨refused, _⟩
    · cases below
    · obtain ⟨name, child, x, declared, present, found⟩ := inPropertyViolations.mp below
      have own := Keyed.getOfMem (inferOrdered config ordered).keys declared
      rw [infer, inferMembersGet, show Keyed.get? members name = some x from present] at own
      cases own
      have among := Keyed.memOfGet present
      exact each _ among (values _ among)
        (Json.uniformMembers.mp uniform _ among) _ found
    · obtain ⟨required, missing⟩ := List.mem_filter.mp absent
      have there := ((inferRequires config).mp required).1
      rw [Option.isNone_iff_eq_none, Keyed.getNone] at missing
      exact missing there
    · cases refused

end Schema

namespace Engine

theorem ofSampleSound (config : Config) (sample : Json) : ofSample sample [] config =
    .ok ⟨Schema.infer config sample, [], config, Schema.inferSound config sample⟩ :=
  compileSound (Schema.inferSound config sample) [] config

/-- A document whose arrays are uniform is accepted by the engine of its own schema. -/
theorem sampleAccepted {config : Config} {document : Json} (ordered : document.Ordered)
    (uniform : document.Uniform config) :
    ∃ engine, ofSample document [] config = .ok engine ∧ engine.validate document = ⟨[]⟩ := by
  refine ⟨_, ofSampleSound config document, ?_⟩
  rw [validate, schemaIssues, violations, Schema.ownViolations ordered uniform]
  rfl

end Engine

namespace Sample

/-- Lines of one shape, in an array beside a member without a name. -/
def ledger : Json :=
  .object [("", .null), ("lines", .array
    [.object [("qty", amount 1), ("tags", .array [])],
      .object [("qty", amount 2), ("tags", .array [])]])]

end Sample

namespace Engine
open Sample

theorem sampleAcceptedLedger : ∃ engine, ofSample ledger [] .standard = .ok engine ∧
    engine.validate ledger = ⟨[]⟩ := by
  refine sampleAccepted ?_ ?_
  · simp only [ledger, amount, Json.Ordered, Json.OrderedMembers, Json.OrderedElements,
      Keyed.Ordered, Keyed.keys]
    decide
  · simp only [ledger, amount, Json.Uniform, Json.UniformMembers, Json.UniformElements]
    decide

end Engine

end RuleSchema
