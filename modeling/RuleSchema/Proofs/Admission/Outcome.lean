import RuleSchema.Admission.Candidate
import RuleSchema.Proofs.Text.Paths
import RuleSchema.Proofs.Validation.Acceptance
/-! What comes of a proposal. The checks of an admission in one expression, the form of the
rules that pass them, and a trial that gives the same result once the rule is marked valid. -/
namespace RuleSchema

/-- The form of a rule that was admitted: its field is the text of a path, its value is trimmed
and not empty, and its operator suits the value. -/
structure Rule.WellFormed (r : Rule) : Prop where
  valid : r.isValid = true
  field : ∃ path, FieldPath.parse r.field = .ok path ∧ path.text = r.field
  trimmed : Text.trim r.value = r.value
  nonempty : r.value ≠ ""
  operator : r.checkOperator = .ok ()

theorem Rule.WellFormed.compiles {r : Rule} (formed : r.WellFormed) : r.Compiles := by
  obtain ⟨path, parsed, _⟩ := formed.field
  exact ⟨⟨path, parsed⟩, formed.operator⟩

namespace Proposal

theorem literalTrimmed (value : String) : Text.trim (literal value) = literal value := by
  simp [literal, Text.trim, Text.trimCharsTwice]

theorem toRuleOk {p : Proposal} {fresh : String} {r : Rule} {path : FieldPath} :
    p.toRule fresh = .ok (r, path) ↔ FieldPath.parse p.field = .ok path ∧
      ∃ c, Condition.parse? p.condition = some c ∧ literal p.value ≠ "" ∧
        r = ⟨p.id.getD fresh, path.text, c, literal p.value, false, p.message⟩ := by
  unfold toRule
  cases parsed : FieldPath.parse p.field with
  | error e => simp [bind, Except.bind]
  | ok own =>
    cases condition : Condition.parse? p.condition with
    | none => simp [bind, Except.bind]
    | some c =>
      by_cases empty : literal p.value = ""
      · simp [empty, bind, Except.bind]
      · simp only [bind, Except.bind, empty, if_false]
        constructor
        · rintro ⟨⟩
          exact ⟨rfl, c, rfl, empty, rfl⟩
        · rintro ⟨⟨⟩, _, ⟨⟩, _, rfl⟩
          rfl

theorem wellFormed {p : Proposal} {fresh : String} {r : Rule} {path : FieldPath}
    (made : p.toRule fresh = .ok (r, path)) (fits : r.checkOperator = .ok ()) :
    ({ r with isValid := true } : Rule).WellFormed := by
  obtain ⟨parsed, c, _, nonempty, rfl⟩ := toRuleOk.mp made
  exact ⟨rfl, ⟨path, FieldPath.parseText parsed, rfl⟩, literalTrimmed p.value, nonempty, fits⟩

end Proposal

section
variable (config : Config) (document : Json) (base : Schema)

def unresolved? (path : FieldPath) : Option FieldNotFound :=
  if ((Schema.infer config document).at? path.segments).isNone then
    some ⟨path.text, .schema, suggestion? path.text (Schema.infer config document).fieldPaths⟩
  else if (document.member? path.segments).isNone then some ⟨path.text, .document, none⟩
  else none

variable {config document} in
theorem presentOfResolved {path : FieldPath}
    (resolved : unresolved? config document path = none) :
    (document.member? path.segments).isSome = true := by
  unfold unresolved? at resolved
  cases found : document.member? path.segments with
  | some v => rfl
  | none =>
    rw [found] at resolved
    split at resolved <;> cases resolved

def tryRule (active : List Rule) (r : Rule) : Except Rejection Rule :=
  match Engine.ofBase base (active ++ [r]) config with
  | .error f => .error (.schemaFault f)
  | .ok engine =>
    if (engine.validate document).isValid then .ok { r with isValid := true }
    else .error (.conflict r.id (engine.validate document).issues)

theorem admitRuleEq (active : List Rule) (fresh : String) (p : Proposal) :
    admitRule config document base active fresh p =
      match p.toRule fresh with
      | .error e => .error (.shape e)
      | .ok (r, path) => match r.checkOperator with
        | .error e => .error (.operatorMismatch e)
        | .ok () =>
          if active.any fun q => q.id == r.id then .error (.shape (.duplicateId r.id))
          else match unresolved? config document path with
            | some e => .error (.fieldNotFound e)
            | none => tryRule config document base active r := by
  unfold admitRule judge Candidate.checkShape
  dsimp only [Candidate.new]
  cases p.toRule fresh with
  | error e => rfl
  | ok made =>
    obtain ⟨r, path⟩ := made
    dsimp only
    cases r.checkOperator with
    | error e => rfl
    | ok =>
      cases active.any fun q => q.id == r.id with
      | true => rfl
      | false =>
        simp only [bind, Except.bind, Bool.false_eq_true, if_false, unresolved?, tryRule,
          Candidate.resolveField, Candidate.advance, Candidate.trial]
        cases ((Schema.infer config document).at? path.segments).isNone with
        | true => rfl
        | false => cases (document.member? path.segments).isNone with
          | true => rfl
          | false =>
            simp only [Bool.false_eq_true, if_false]
            cases Engine.ofBase base (active ++ [r]) config with
            | error f => rfl
            | ok engine =>
              simp only
              cases (engine.validate document).isValid <;> rfl

variable {config document base}

theorem admitRuleOk {active : List Rule} {fresh : String} {p : Proposal} {r : Rule}
    (admitted : admitRule config document base active fresh p = .ok r) :
    ∃ shaped path, p.toRule fresh = .ok (shaped, path) ∧ shaped.checkOperator = .ok () ∧
      (∀ q ∈ active, q.id ≠ shaped.id) ∧ unresolved? config document path = none ∧
        tryRule config document base active shaped = .ok r := by
  rw [admitRuleEq] at admitted
  split at admitted
  · cases admitted
  · rename_i shaped path made
    split at admitted
    · cases admitted
    · rename_i fits
      split at admitted
      · cases admitted
      · rename_i unused
        split at admitted
        · cases admitted
        · rename_i resolved
          refine ⟨shaped, path, made, fits, ?_, resolved, admitted⟩
          simpa using unused

end

namespace Engine
variable {base : Schema} {rules : List Rule} {config : Config} {document : Json}

/-- A document is accepted when the merged schema is usable and passes it, and all rules hold. -/
structure Accepts (base : Schema) (rules : List Rule) (config : Config) (document : Json) :
    Prop where
  sound : (base.withRules rules).fault? = none
  passes : (base.withRules rules).Passes config document
  hold : Rule.issues rules document = []

theorem acceptsValid {e : Engine} (made : ofBase base rules config = .ok e)
    (valid : (e.validate document).isValid = true) : Accepts base rules config document := by
  obtain ⟨sound, rfl⟩ := soundOfCompile made
  obtain ⟨passes, hold⟩ := (validIff _ _).mp valid
  exact ⟨sound, passes, hold⟩

theorem Accepts.report (accepts : Accepts base rules config document) :
    (ofBase base rules config).map (fun e => e.validate document) = .ok ⟨[]⟩ := by
  rw [ofBase, compileSound accepts.sound, Except.map]
  have none := (validIff ⟨_, rules, config, accepts.sound⟩ document).mpr
    ⟨accepts.passes, accepts.hold⟩
  exact congrArg Except.ok (congrArg Report.mk (List.isEmpty_iff.mp none))

end Engine

theorem tryRuleOk {config : Config} {document : Json} {base : Schema} {active : List Rule}
    {shaped r : Rule} (tried : tryRule config document base active shaped = .ok r) :
    r = { shaped with isValid := true } ∧
      Engine.Accepts base (active ++ [shaped]) config document := by
  unfold tryRule at tried
  split at tried
  · cases tried
  · rename_i engine made
    split at tried
    · rename_i valid
      cases tried
      exact ⟨rfl, Engine.acceptsValid made valid⟩
    · cases tried

theorem tryRuleAccepts {config : Config} {document : Json} {base : Schema} {active : List Rule}
    {shaped : Rule} : (tryRule config document base active shaped).isOk = true ↔
      Engine.Accepts base (active ++ [shaped]) config document := by
  constructor
  · intro accepted
    cases tried : tryRule config document base active shaped with
    | ok r => exact (tryRuleOk tried).2
    | error e => rw [tried] at accepted; cases accepted
  · rintro ⟨sound, passes, hold⟩
    have valid := (Engine.validIff ⟨_, active ++ [shaped], config, sound⟩ document).mpr
      ⟨passes, hold⟩
    rw [tryRule, Engine.ofBase, Engine.compileSound sound]
    dsimp only
    rw [if_pos valid]
    rfl

theorem admittedId {config : Config} {document : Json} {base : Schema} {active : List Rule}
    {fresh : String} {p : Proposal} {r : Rule}
    (admitted : admitRule config document base active fresh p = .ok r) :
    r.id = p.id.getD fresh := by
  obtain ⟨shaped, path, made, _, _, _, tried⟩ := admitRuleOk admitted
  obtain ⟨_, c, _, _, same⟩ := Proposal.toRuleOk.mp made
  rw [(tryRuleOk tried).1, same]

theorem admittedUnused {config : Config} {document : Json} {base : Schema} {active : List Rule}
    {fresh : String} {p : Proposal} {r : Rule}
    (admitted : admitRule config document base active fresh p = .ok r) :
    ∀ q ∈ active, q.id ≠ r.id := by
  obtain ⟨shaped, path, _, _, unused, _, tried⟩ := admitRuleOk admitted
  rw [(tryRuleOk tried).1]
  exact unused

section
variable (r : Rule) (flag : Bool)

theorem addAlongMarked (s : Schema) (base : Option Schema) (path : List String) :
    Schema.addAlong { r with isValid := flag } s base path = Schema.addAlong r s base path := by
  induction path generalizing s base with
  | nil => rfl
  | cons name rest ih =>
    cases rest with
    | nil => rfl
    | cons next rest => simp only [Schema.addAlong, ih]

theorem addRuleMarked (base s : Schema) :
    Schema.addRule base s { r with isValid := flag } = Schema.addRule base s r := by
  simp only [Schema.addRule, addAlongMarked]
  rfl

theorem withRulesMarked (base : Schema) (active : List Rule) :
    base.withRules (active ++ [{ r with isValid := flag }]) = base.withRules (active ++ [r]) := by
  have same : Schema.ofRules base (active ++ [{ r with isValid := flag }]) =
      Schema.ofRules base (active ++ [r]) := by
    simp only [Schema.ofRules, List.foldlM_append, List.foldlM_cons, addRuleMarked]
  have some : ∀ q : Rule, (active ++ [q]).isEmpty = false := fun q => by cases active <;> rfl
  simp only [Schema.withRules, same, some]

theorem issueMarked (document : Json) :
    ({ r with isValid := flag } : Rule).issue? document = r.issue? document := rfl

theorem acceptsMarked {base : Schema} {active : List Rule} {config : Config} {document : Json}
    (accepts : Engine.Accepts base (active ++ [r]) config document) :
    Engine.Accepts base (active ++ [{ r with isValid := flag }]) config document := by
  obtain ⟨sound, passes, hold⟩ := accepts
  refine ⟨?_, ?_, ?_⟩
  · rw [withRulesMarked]
    exact sound
  · rw [withRulesMarked]
    exact passes
  · simp only [Rule.issues, List.filterMap_append, List.filterMap_cons, issueMarked] at hold ⊢
    exact hold

end

end RuleSchema
