import RuleSchema.Proofs.Json.Location
import RuleSchema.Proofs.Validation.Violations
/-! Which violations an exemption hides. Whether one is exempt is read off its pointer, and that
is the same as reading it off its place: what is hidden are the violations at or under an optional
member, and the absence of one. -/
namespace RuleSchema

namespace Violation

theorem topLevelFieldUnder (name : String) (rest : List String) (v : Json) (b : Breach) :
    topLevelField? ⟨name :: rest, v, b⟩ = if name = "" then none else some name := by
  have below : Pointer.ofTokens (name :: rest) ≠ "" := by simp [Pointer.ofTokensEmpty]
  have path : Issue.topLevelField? (toIssue ⟨name :: rest, v, b⟩) =
      if name = "" then none else some name := Issue.topLevelFieldOfTokens rfl
  cases b <;> simp only [topLevelField?, pointer, below, if_false, path]

theorem topLevelFieldRoot (v : Json) (b : Breach) : topLevelField? ⟨[], v, b⟩ =
    match b with
    | .missing name => some name
    | _ => none := by
  cases b <;> rfl

/-- Whether a violation is at or under a top-level member, or is that the root misses it. -/
def concerns (v : Violation) (name : String) : Bool :=
  match v.place with
  | [] => v.breach == .missing name
  | token :: _ => token == name

theorem exemptIff {config : Config} (named : "" ∉ config.optionalFields) (v : Violation) :
    v.isExempt config = true ↔ ∃ name ∈ config.optionalFields, v.concerns name = true := by
  obtain ⟨place, value, breach⟩ := v
  cases place with
  | nil =>
    rw [isExempt, topLevelFieldRoot]
    cases breach <;> simp [concerns, Config.isOptional]
  | cons token rest =>
    rw [isExempt, topLevelFieldUnder]
    by_cases empty : token = ""
    · subst empty
      simpa [concerns] using named
    · simp [concerns, Config.isOptional, empty]

end Violation

namespace Schema
variable {switches : FormatSwitches}

theorem violationsPlace {s : Schema} {place : List String} {v : Json} {w : Violation}
    (inside : w ∈ s.violations switches place v) : place <+: w.place := by
  induction s using treeInduction generalizing place v with
  | node s properties items =>
    cases findsOfIn inside with
    | keyword _ | format _ | missing _ | kind _ => exact List.prefix_rfl
    | item below =>
      cases element : s.items with
      | none => simp [element, itemViolations] at below
      | some t =>
        cases v with
        | array elements =>
          rw [element, itemViolations] at below
          obtain ⟨⟨x, i⟩, _, deeper⟩ := List.mem_flatMap.mp below
          exact (List.prefix_append place _).trans (items t element deeper)
        | null | bool _ | number _ | string _ | object _ =>
          simp [element, itemViolations] at below
    | property declared _ deeper =>
      exact (List.prefix_append place _).trans (properties _ declared deeper)

/-- An object breaks nothing of an object node itself but the names that must be present, unless
the node has a list of values. -/
theorem objectViolations {s : Schema} (kind : s.kind = .object)
    (allowed : s.constraints.allowed = none) (forbidden : s.constraints.forbidden = none)
    (place : List String) (members : List (String × Json)) :
    s.violations switches place (.object members) =
      propertyViolations switches place s.properties (.object members) ++
      (missingNames s.required (.object members)).map fun name =>
        ⟨place, .object members, .missing name⟩ := by
  rw [violationsEq, kind, objectItems]
  simp [Constraints.unmet, Constraints.met, allowed, forbidden, formatBreach?,
    aboveMaximum?, belowMinimum?, Kind.admits]

end Schema

namespace Violation

/-- Issues of violations that concern none of the names. -/
def issuesBut (names : List String) (violations : List Violation) : List Issue :=
  (violations.filter fun v => !names.any v.concerns).map toIssue

theorem issuesButAppend (names : List String) (first second : List Violation) :
    issuesBut names (first ++ second) = issuesBut names first ++ issuesBut names second := by
  rw [issuesBut, List.filter_append, List.map_append]
  rfl

theorem issuesButUnder {names : List String} {name : String} (exempt : name ∈ names)
    {violations : List Violation} (below : ∀ w ∈ violations, [name] <+: w.place) :
    issuesBut names violations = [] := by
  rw [issuesBut, List.map_eq_nil_iff, List.filter_eq_nil_iff]
  intro w inside
  obtain ⟨rest, place⟩ := below w inside
  have concerned : w.concerns name = true := by simp [concerns, ← place]
  simpa using ⟨name, exempt, concerned⟩

theorem concernedAbsence (names : List String) (name : String) (v : Json) :
    names.any (concerns ⟨[], v, .missing name⟩) = names.contains name := by
  rw [Bool.eq_iff_iff]
  simp [concerns]

end Violation

namespace Schema
open Violation
variable {switches : FormatSwitches} {names : List String} {first second : List (String × Json)}

theorem propertiesAlike
    (agree : ∀ name, name ∉ names → Keyed.get? first name = Keyed.get? second name)
    (properties : List (String × Schema)) :
    issuesBut names (propertyViolations switches [] properties (.object first)) =
      issuesBut names (propertyViolations switches [] properties (.object second)) := by
  rw [propertyViolationsEq, propertyViolationsEq]
  induction properties with
  | nil => rfl
  | cons p rest ih =>
    obtain ⟨name, s⟩ := p
    simp only [List.flatMap_cons, issuesButAppend, ih]
    congr 1
    by_cases exempt : name ∈ names
    · have hidden : ∀ v : Json, issuesBut names ((v.get? name).toList.flatMap fun child =>
          s.violations switches ([] ++ [name]) child) = [] := by
        refine fun v => issuesButUnder exempt fun w inside => ?_
        obtain ⟨child, _, there⟩ := List.mem_flatMap.mp inside
        exact violationsPlace there
      rw [hidden, hidden]
    · have same : (Json.object first).get? name = (Json.object second).get? name :=
        agree name exempt
      rw [same]

theorem absencesAlike
    (agree : ∀ name, name ∉ names → Keyed.get? first name = Keyed.get? second name)
    (required : List String) :
    issuesBut names ((missingNames required (.object first)).map fun name =>
        ⟨[], .object first, .missing name⟩) =
      issuesBut names ((missingNames required (.object second)).map fun name =>
        ⟨[], .object second, .missing name⟩) := by
  simp only [issuesBut, missingNames, List.filter_map, List.map_map, List.filter_filter]
  -- The message of an absence has the name in it, and nothing of the object.
  have shown : ∀ members, toIssue ∘ (fun name => ⟨[], .object members, .missing name⟩) =
      fun name => ⟨"", message ⟨[], .null, .missing name⟩, .schema⟩ := fun _ => rfl
  rw [shown, shown]
  congr 1
  refine List.filter_congr fun name _ => ?_
  rw [Function.comp_apply, Function.comp_apply, concernedAbsence, concernedAbsence]
  by_cases exempt : name ∈ names
  · simp [exempt]
  · rw [agree name exempt]

end Schema

namespace Engine
open Violation

theorem schemaIssuesBut {e : Engine} (named : "" ∉ e.config.optionalFields) (document : Json) :
    e.schemaIssues document = issuesBut e.config.optionalFields (e.violations document) := by
  have same : (fun v : Violation => !v.isExempt e.config) =
      fun v => !e.config.optionalFields.any v.concerns := by
    funext v
    rw [Bool.eq_iff_iff]
    simp [← Bool.not_eq_true, exemptIff named v]
  rw [schemaIssues, same, issuesBut]

/-- No issues are the violations at or under an exempt member and those that miss one, and all
others are, in their order. So objects that differ in exempt members only have the same issues. -/
theorem exemptUnseen {e : Engine} (named : "" ∉ e.config.optionalFields) :
    (∀ document, e.schemaIssues document = ((e.violations document).filter fun v =>
      !e.config.optionalFields.any v.concerns).map toIssue) ∧
    (∀ document, ∀ v ∈ e.violations document, ∀ name, v.place.head? = some name →
      name ∉ e.config.optionalFields → v.toIssue ∈ e.schemaIssues document) ∧
    (e.schema.kind = .object → e.schema.constraints.allowed = none →
      e.schema.constraints.forbidden = none → ∀ first second : List (String × Json),
      (∀ name, name ∉ e.config.optionalFields →
        Keyed.get? first name = Keyed.get? second name) →
      e.schemaIssues (.object first) = e.schemaIssues (.object second)) := by
  refine ⟨schemaIssuesBut named, fun document v inside name top counts => ?_, ?_⟩
  · have unconcerned : e.config.optionalFields.any v.concerns = false := by
      rw [List.any_eq_false]
      intro other exempt
      obtain ⟨place, value, breach⟩ := v
      cases place with
      | nil => cases top
      | cons token rest =>
        cases top
        have differs : name ≠ other := fun same => counts (same ▸ exempt)
        simp [concerns, differs]
    rw [schemaIssuesBut named]
    exact List.mem_map.mpr ⟨v, List.mem_filter.mpr ⟨inside, by simp [unconcerned]⟩, rfl⟩
  · intro kind allowed forbidden first second agree
    rw [schemaIssuesBut named, schemaIssuesBut named, violations, violations,
      Schema.objectViolations kind allowed forbidden,
      Schema.objectViolations kind allowed forbidden, issuesButAppend, issuesButAppend,
      Schema.propertiesAlike agree, Schema.absencesAlike agree]

end Engine

namespace Sample

/-- An engine that wants two texts, `po` and `po/line`, and never misses the first. -/
def orders : Engine where
  schema := { Schema.bare .object with
    properties := [("po", .bare .string), ("po/line", .bare .string)]
    required := ["po", "po/line"] }
  rules := []
  config := Config.standard.withOptionalFields ["po"]
  sound := by decide

end Sample

namespace Engine
open Sample Violation

theorem exemptUnseenOrders :
    orders.schemaIssues (.object [("po/line", .null)]) =
        orders.schemaIssues (.object [("po", .bool true), ("po/line", .null)]) ∧
      toIssue ⟨["po/line"], .null, .wrongKind .string⟩ ∈
        orders.schemaIssues (.object [("po", .bool true), ("po/line", .null)]) := by
  have named : "" ∉ orders.config.optionalFields := by decide
  obtain ⟨_, others, alike⟩ := exemptUnseen named
  constructor
  · refine alike rfl rfl rfl _ _ fun name counts => ?_
    have differs : "po" ≠ name := fun same => counts (same ▸ by decide)
    simp [Keyed.get?, differs]
  · exact others _ _ (by decide +kernel) "po/line" rfl (by decide)

end Engine

end RuleSchema
