import RuleSchema.Proofs.Schema.Inference
import RuleSchema.Proofs.Validation.Agreement
import RuleSchema.Proofs.Validation.Exemption
/-! What an engine accepts. The rules laid over a base add no objection of their own and take
none away: a document is accepted exactly when the base alone accepts it and every rule holds. -/
namespace RuleSchema

namespace Rule

theorem issueNone {r : Rule} {document : Json} : r.issue? document = none ↔
    ∃ path v, r.path = .ok path ∧ document.member? path.segments = some v ∧
      r.holdsFor v = true := by
  unfold issue?
  cases parsed : r.path with
  | error e => simp
  | ok path =>
    cases found : document.member? path.segments with
    | none => simp [found]
    | some v => by_cases holds : r.holdsFor v = true <;> simp [found, holds]

theorem issuesNone {rules : List Rule} {document : Json} : issues rules document = [] ↔
    ∀ r ∈ rules, r.issue? document = none :=
  List.filterMap_eq_nil_iff

theorem valueOfIssueNone {r : Rule} {document : Json} (holds : r.issue? document = none) :
    ∃ v, document.member? r.segments = some v ∧ r.holdsFor v = true := by
  obtain ⟨path, v, parsed, found, fits⟩ := issueNone.mp holds
  exact ⟨v, pathSegments parsed ▸ found, fits⟩

end Rule

theorem Violation.exemptAt (config : Config) {place : List String} (below : place ≠ [])
    (v w : Json) (b c : Breach) :
    isExempt config ⟨place, v, b⟩ = isExempt config ⟨place, w, c⟩ := by
  cases place with
  | nil => contradiction
  | cons name rest => rw [isExempt, isExempt, topLevelFieldUnder, topLevelFieldUnder]

namespace Schema
variable {config : Config} {document : Json}

/-- A schema passes a document in which it finds nothing but what is exempt. -/
def Passes (s : Schema) (config : Config) (document : Json) : Prop :=
  ∀ w ∈ s.violations config.formats [] document, w.isExempt config = true

theorem passesFilter {s : Schema} : s.Passes config document ↔
    (s.violations config.formats [] document).filter (fun w => !w.isExempt config) = [] := by
  simp [Passes, List.filter_eq_nil_iff]

theorem Passes.admits {s leaf : Schema} {path : List String} {x : Json}
    (passes : s.Passes config document) (declared : s.at? path = some leaf)
    (present : document.member? path = some x) (below : path ≠ []) (b : Breach)
    (counts : Violation.isExempt config ⟨path, x, b⟩ = false) : leaf.kind.admits x = true := by
  cases admitted : leaf.kind.admits x with
  | true => rfl
  | false =>
    have refused : ⟨path, x, .wrongKind leaf.kind⟩ ∈
        leaf.violations config.formats ([] ++ path) x := inOfFinds (.kind admitted)
    have exempt := passes _ (violationsAt declared present refused)
    rw [Violation.exemptAt config below x x _ b, counts] at exempt
    contradiction

theorem imposePasses {r : Rule} {s leaf : Schema} {x : Json} (compiles : r.Compiles)
    (ordered : s.Ordered) (declared : s.at? r.segments = some leaf)
    (present : document.member? r.segments = some x) (exact : x.IsExact)
    (holds : r.holdsFor x = true) (passes : s.Passes config document) :
    (impose r s none r.segments).Passes config document := by
  rw [passesFilter, imposeViolations ordered declared present (passesFilter.mp passes),
    List.filter_eq_nil_iff, List.nil_append]
  intro w inside
  obtain ⟨b, breach, rfl⟩ := List.mem_map.mp inside
  cases counts : Violation.isExempt config ⟨r.segments, x, b⟩ with
  | true => simp
  | false =>
    -- What counts here would count for a wrong kind too, so the kind is right.
    have admitted := passes.admits declared present compiles.segmentsNonempty b counts
    rw [(Rule.keywordsAgree compiles.operator admitted exact).mpr (.inl holds)] at breach
    cases breach

theorem imposeAllPasses {rules : List Rule} {s : Schema} (compile : ∀ r ∈ rules, r.Compiles)
    (ordered : s.Ordered) (declared : ∀ r ∈ rules, ∃ node, s.at? r.segments = some node)
    (exact : ∀ r ∈ rules, ∀ v ∈ document.member? r.segments, v.IsExact)
    (hold : ∀ r ∈ rules, r.issue? document = none) (passes : s.Passes config document) :
    (s.imposeAll rules).Passes config document := by
  induction rules generalizing s with
  | nil => exact passes
  | cons r rest ih =>
    obtain ⟨leaf, here⟩ := declared r List.mem_cons_self
    obtain ⟨x, present, holds⟩ := Rule.valueOfIssueNone (hold r List.mem_cons_self)
    have exactHere : x.IsExact := exact r List.mem_cons_self x present
    rw [imposeAllCons]
    refine ih (fun q inside => compile q (List.mem_cons_of_mem r inside))
      (imposeOrdered ordered (by simp) r.segments) (fun q inside => ?_)
      (fun q inside => exact q (List.mem_cons_of_mem r inside))
      (fun q inside => hold q (List.mem_cons_of_mem r inside))
      (imposePasses (compile r List.mem_cons_self) ordered here present exactHere holds passes)
    obtain ⟨node, there⟩ := declared q (List.mem_cons_of_mem r inside)
    obtain ⟨next, kept, _⟩ := atImpose r r.segments there
    exact ⟨next, kept⟩

theorem imposeAllCovers {rules : List Rule} {s : Schema}
    (free : ∀ r ∈ rules, ∀ node, s.at? r.segments = some node → node.constraints = .empty) :
    Covers s (s.imposeAll rules) := by
  intro place node found
  obtain ⟨next, reached, retains, kept⟩ := atImposeAll rules found
  refine ⟨next, reached, retains, ?_⟩
  by_cases there : ∃ r ∈ rules, place = r.segments
  · obtain ⟨r, inside, same⟩ := there
    exact .inl (free r inside node (same ▸ found))
  · exact .inr (kept fun r inside same => there ⟨r, inside, same⟩)

theorem Covers.passes {lower upper : Schema} (covers : Covers lower upper)
    (ordered : lower.Ordered) (passes : upper.Passes config document) :
    lower.Passes config document :=
  fun w inside => passes w (coveredViolations ordered covers inside)

end Schema

namespace Sample

/-- A whole number below 1000; larger ones are taken modulo 1000. -/
def amount (n : Nat) : Json := .number (.whole ⟨(n % 1000 : Nat), by omega⟩)

def invoice : Json :=
  .object [("status", .string "paid"), ("totals", .object
    [("due", amount 500), ("paid", amount 250)])]

theorem invoiceOrdered : invoice.Ordered := by
  simp only [invoice, amount, Json.Ordered, Json.OrderedMembers, Keyed.Ordered, Keyed.keys]
  decide

def rule (id field : String) (condition : Condition) (value : String) : Rule :=
  ⟨id, field, condition, value, true, none⟩

def rules : List Rule :=
  [rule "a" "totals.paid" .greater "10", rule "b" "totals.paid" .greaterOrEqual "1e2",
    rule "c" "totals.due" .lessOrEqual "500", rule "d" "totals" .notEqual "none",
    rule "e" "status" .equal "paid"]

end Sample

namespace Engine

theorem compileSound {schema : Schema} (sound : schema.fault? = none) (rules : List Rule)
    (config : Config) : compile schema rules config = .ok ⟨schema, rules, config, sound⟩ := by
  unfold compile
  split
  · rename_i f fault
    rw [sound] at fault
    contradiction
  · rfl

theorem ofBaseSound {base : Schema} (sound : base.fault? = none) (rules : List Rule)
    (config : Config) : ofBase base rules config =
      .ok ⟨base.withRules rules, rules, config, Schema.withRulesSound sound rules⟩ :=
  compileSound _ rules config

theorem soundOfCompile {schema : Schema} {rules : List Rule} {config : Config} {e : Engine}
    (compiled : compile schema rules config = .ok e) :
    ∃ sound : schema.fault? = none, e = ⟨schema, rules, config, sound⟩ := by
  unfold compile at compiled
  split at compiled
  · contradiction
  · rename_i sound
    exact ⟨sound, (Except.ok.inj compiled).symm⟩

theorem soundOfCompiles {schema : Schema} {rules : List Rule} {config : Config}
    (compiles : (compile schema rules config).isOk = true) : schema.fault? = none := by
  cases compiled : compile schema rules config with
  | error f => rw [compiled] at compiles; contradiction
  | ok e => exact (soundOfCompile compiled).1

theorem validIff (e : Engine) (document : Json) : (e.validate document).isValid = true ↔
    e.schema.Passes e.config document ∧ Rule.issues e.rules document = [] := by
  simp [validate, Report.ofGroups, Report.isValid, schemaIssues, violations,
    Schema.passesFilter]

/-- An engine accepts a document exactly when the base alone accepts it and every rule holds. -/
theorem acceptanceSplits {base : Schema} {rules : List Rule} {config : Config} {document : Json}
    (ordered : base.Ordered) (usable : (compile base [] config).isOk = true)
    (compiled : (Schema.ofRules base rules).isOk = true)
    (declared : ∀ r ∈ rules, ∃ node ∈ base.at? r.segments, node.constraints = .empty)
    (exact : ∀ r ∈ rules, ∀ v ∈ document.member? r.segments, v.IsExact) :
    ∃ engine plain, ofBase base rules config = .ok engine ∧ ofBase base [] config = .ok plain ∧
      ((engine.validate document).isValid = true ↔
        (plain.validate document).isValid = true ∧ Rule.issues rules document = []) := by
  have sound := soundOfCompiles usable
  have compile := Schema.compilesOfCompiled compiled
  refine ⟨_, _, compileSound (Schema.withRulesSound sound rules) rules config,
    compileSound (Schema.withRulesSound sound []) [] config, ?_⟩
  rw [validIff, validIff]
  simp only [Schema.withRulesInPlace ordered compile]
  constructor
  · rintro ⟨passes, none⟩
    have free : ∀ r ∈ rules, ∀ node, base.at? r.segments = some node →
        node.constraints = .empty := by
      intro r inside node found
      obtain ⟨own, there, empty⟩ := declared r inside
      rw [there] at found
      exact Option.some.inj found ▸ empty
    exact ⟨⟨(Schema.imposeAllCovers free).passes ordered passes, rfl⟩, none⟩
  · rintro ⟨⟨passes, _⟩, none⟩
    refine ⟨Schema.imposeAllPasses compile ordered (fun r inside => ?_) exact
      (Rule.issuesNone.mp none) passes, none⟩
    obtain ⟨node, there, _⟩ := declared r inside
    exact ⟨node, there⟩

theorem acceptanceSplitsInvoice : ∃ engine plain,
    ofBase (Schema.infer .standard Sample.invoice) Sample.rules .standard = .ok engine ∧
    ofBase (Schema.infer .standard Sample.invoice) [] .standard = .ok plain ∧
      ((engine.validate Sample.invoice).isValid = true ↔
        (plain.validate Sample.invoice).isValid = true ∧
          Rule.issues Sample.rules Sample.invoice = []) :=
  acceptanceSplits (Schema.inferOrdered .standard Sample.invoiceOrdered) (by decide +kernel)
    (by decide +kernel) (by decide +kernel) (by decide +kernel)

end Engine

end RuleSchema
