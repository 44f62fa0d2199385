import RuleSchema.Proofs.Validation.Acceptance
/-! Rules without a schema. The first of them in a list is the error of the whole list, and the
merged schema is then the base alone. Nothing slips through: no document satisfies such a rule. -/
namespace RuleSchema

namespace Rule

/-- The field is no path, or an order has no number to compare with. -/
def Misformed (r : Rule) : Prop :=
  (∃ e, r.path = .error e) ∨ r.condition.isRelational = true ∧ r.number? = none

theorem checkOperatorOk {r : Rule} : r.checkOperator = .ok () ↔
    ¬(r.condition.isRelational = true ∧ r.number? = none) := by
  unfold checkOperator
  cases r.condition.isRelational <;> cases r.number? <;> simp

theorem misformedIff {r : Rule} : r.Misformed ↔ ¬r.Compiles := by
  constructor
  · rintro (⟨e, broken⟩ | misfit) ⟨⟨path, parsed⟩, fits⟩
    · rw [broken] at parsed
      cases parsed
    · exact checkOperatorOk.mp fits misfit
  · intro none
    cases parsed : r.path with
    | error e => exact .inl ⟨e, parsed⟩
    | ok path =>
      refine .inr (Classical.byContradiction fun suits => none ⟨⟨path, parsed⟩, ?_⟩)
      exact checkOperatorOk.mpr suits

theorem misformedOfError {r : Rule} {e : CompileError} (failed : r.compileError? = some e) :
    r.Misformed := by
  refine misformedIff.mpr fun compiles => ?_
  rw [compileErrorNone.mpr compiles] at failed
  cases failed

theorem compileErrorId {r : Rule} {e : CompileError} (misformed : r.compileError? = some e) :
    e.ruleId = r.id := by
  unfold compileError? at misformed
  split at misformed
  · cases misformed
    rfl
  · split at misformed <;> cases misformed
    rfl

theorem issueSource {r : Rule} {document : Json} {i : Issue} (found : r.issue? document = some i) :
    i.source = .rule r.id := by
  unfold issue? at found
  split at found
  · cases found
    rfl
  · split at found
    · cases found
      rfl
    · split at found <;> cases found
      rfl

theorem orderFails {r : Rule} (relational : r.condition.isRelational = true)
    (number : r.number? = none) (v : Json) : r.holdsFor v = false := by
  unfold holdsFor
  cases chosen : r.condition with
  | equal | notEqual =>
    rw [chosen] at relational
    cases relational
  | greater | less | greaterOrEqual | lessOrEqual =>
    cases v.coerce? <;> simp [number]

theorem misformedIssue {r : Rule} (misformed : r.Misformed) (document : Json) :
    ∃ i, r.issue? document = some i ∧ i.source = .rule r.id := by
  cases found : r.issue? document with
  | some i => exact ⟨i, rfl, issueSource found⟩
  | none =>
    obtain ⟨path, v, parsed, _, holds⟩ := issueNone.mp found
    rcases misformed with ⟨e, broken⟩ | ⟨relational, number⟩
    · rw [broken] at parsed
      cases parsed
    · rw [orderFails relational number v] at holds
      cases holds

end Rule

namespace Schema

theorem ofRulesFails {base : Schema} {rules : List Rule} :
    (ofRules base rules).isOk = false ↔ ∃ r ∈ rules, r.Misformed := by
  cases made : ofRules base rules with
  | ok upper =>
    refine ⟨nofun, ?_⟩
    rintro ⟨r, inside, misformed⟩
    exact absurd (compilesOfRules made r inside) (Rule.misformedIff.mp misformed)
  | error e =>
    obtain ⟨r, inside, failed⟩ := List.exists_of_findSome?_eq_some (ofRulesError.mp made)
    exact ⟨fun _ => ⟨r, inside, Rule.misformedOfError failed⟩, fun _ => rfl⟩

end Schema

namespace Engine

theorem misformedRefused {r : Rule} (misformed : r.Misformed) {engine : Engine}
    (inside : r ∈ engine.rules) (document : Json) :
    (engine.validate document).isValid = false ∧
      ∃ i ∈ (engine.validate document).issues, i.source = .rule r.id := by
  obtain ⟨i, found, source⟩ := Rule.misformedIssue misformed document
  have reported : i ∈ (engine.validate document).issues :=
    List.mem_append_right _ (List.mem_filterMap.mpr ⟨r, inside, found⟩)
  refine ⟨?_, i, reported, source⟩
  rw [Report.isValid, List.isEmpty_eq_false_iff]
  exact List.ne_nil_of_mem reported

/-- A list of rules fails to compile exactly when one of them is misformed. The first such rule is
the error and the base stays as it is, and of an engine made with these rules every report has an
issue of that rule, so it accepts no document. -/
theorem failsClosed {base : Schema} {rules : List Rule} (config : Config) :
    ((Schema.ofRules base rules).isOk = false ↔ ∃ r ∈ rules, r.Misformed) ∧
    ∀ e, Schema.ofRules base rules = .error e →
      base.withRules rules = base ∧
      ∃ before r after, rules = before ++ r :: after ∧ (∀ q ∈ before, ¬q.Misformed) ∧
        r.Misformed ∧ r.compileError? = some e ∧ e.ruleId = r.id ∧
        ((compile base [] config).isOk = true →
          ∃ engine, ofBase base rules config = .ok engine ∧ engine.schema = base ∧
            ∀ document, (engine.validate document).isValid = false ∧
              ∃ i ∈ (engine.validate document).issues, i.source = .rule r.id) := by
  refine ⟨Schema.ofRulesFails, fun e failed => ?_⟩
  obtain ⟨before, r, after, split, first, fine⟩ :=
    List.findSome?_eq_some_iff.mp (Schema.ofRulesError.mp failed)
  have plain := Schema.withRulesError failed
  have misformed := Rule.misformedOfError first
  have earlier : ∀ q ∈ before, ¬q.Misformed := fun q inside broken =>
    Rule.misformedIff.mp broken (Rule.compileErrorNone.mp (fine q inside))
  refine ⟨plain, before, r, after, split, earlier, misformed, first, Rule.compileErrorId first,
    fun usable => ?_⟩
  have sound := soundOfCompiles usable
  refine ⟨⟨base, rules, config, sound⟩, ?_, rfl, fun document => ?_⟩
  -- The engine has the base for its schema, so what refuses is the check of the rule itself.
  · rw [ofBase, plain]
    exact compileSound sound rules config
  · exact misformedRefused misformed (by simp [split]) document

end Engine

namespace Sample

/-- The second rule orders by no number; the third would not compile either. -/
def misformed : List Rule :=
  [rule "a" "totals.paid" .greater "10", rule "b" "totals.due" .less "lots",
    rule "c" "totals..due" .equal "500"]

end Sample

namespace Engine

open Sample in
theorem failsClosedLots :
    Schema.ofRules (Schema.infer .standard invoice) misformed =
      .error ⟨"b", .operatorMismatch ⟨"totals.due", .less, "lots"⟩⟩ ∧
    (compile (Schema.infer .standard invoice) [] .standard).isOk = true ∧
    ∃ engine, ofBase (Schema.infer .standard invoice) misformed .standard = .ok engine ∧
      ∀ document, (engine.validate document).isValid = false ∧
        ∃ i ∈ (engine.validate document).issues, i.source = .rule "b" := by
  have failed : Schema.ofRules (Schema.infer .standard invoice) misformed =
      .error ⟨"b", .operatorMismatch ⟨"totals.due", .less, "lots"⟩⟩ :=
    Schema.ofRulesError.mpr (by decide +kernel)
  have usable : (compile (Schema.infer .standard invoice) [] .standard).isOk = true := by
    decide +kernel
  obtain ⟨_, _, r, _, _, _, _, _, named, refused⟩ := (failsClosed .standard).2 _ failed
  obtain ⟨engine, made, _, each⟩ := refused usable
  have id : r.id = "b" := named.symm
  exact ⟨failed, usable, engine, made, fun document => id ▸ each document⟩

end Engine

end RuleSchema
