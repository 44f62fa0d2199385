import RuleSchema.Admission.Rejection
import RuleSchema.Schema.Fields
import RuleSchema.Validation.Engine
/-! Rules on their way to admission. A candidate is at a stage, holds what that stage has
established, and keeps a log of its moves; only allowed moves can be made. -/
namespace RuleSchema

inductive Stage where
  | proposed
  | shapeValidated
  | fieldResolved
  | trialValidated
  | committed
  | rejected
  deriving DecidableEq, Repr

namespace Stage

def all : List Stage :=
  [proposed, shapeValidated, fieldResolved, trialValidated, committed, rejected]

def name : Stage → String
  | proposed => "PROPOSED"
  | shapeValidated => "SHAPE_VALIDATED"
  | fieldResolved => "FIELD_RESOLVED"
  | trialValidated => "TRIAL_VALIDATED"
  | committed => "COMMITTED"
  | rejected => "REJECTED"

def ofName? (name : String) : Option Stage := all.find? fun s => s.name == name

def isTerminal : Stage → Bool
  | committed | rejected => true
  | _ => false

/-- Whether a candidate may move from a stage to another. -/
def allows : Stage → Stage → Bool
  | proposed, shapeValidated | shapeValidated, fieldResolved | fieldResolved, trialValidated
  | trialValidated, committed => true
  | proposed, rejected | shapeValidated, rejected | fieldResolved, rejected => true
  | _, _ => false

/-- What is known of a candidate at a stage. -/
def Content : Stage → Type
  | proposed => Proposal
  | shapeValidated => Rule × FieldPath
  | fieldResolved | trialValidated | committed => Rule
  | rejected => Rejection

end Stage

structure Transition where
  origin : Stage
  target : Stage
  /-- Why, if the target is rejection. -/
  reason : Option String
  deriving DecidableEq, Repr

structure Candidate (stage : Stage) where
  content : stage.Content
  log : List Transition

namespace Candidate

def new (p : Proposal) : Candidate .proposed := ⟨p, []⟩

def advance {s : Stage} (c : Candidate s) (t : Stage) (content : t.Content)
    (_ : s.allows t = true) : Candidate t :=
  ⟨content, c.log ++ [⟨s, t, none⟩]⟩

def reject {s : Stage} (c : Candidate s) (why : Rejection)
    (_ : s.allows .rejected = true) : Candidate .rejected :=
  ⟨why, c.log ++ [⟨s, .rejected, some why.message⟩]⟩

/-- Looks at the form, the operator and the identifier, which no active rule may have. -/
def checkShape (fresh : String) (active : List Rule) (c : Candidate .proposed) :
    Except (Candidate .rejected) (Candidate .shapeValidated) :=
  match Proposal.toRule c.content fresh with
  | .error e => .error (c.reject (.shape e) rfl)
  | .ok (rule, path) => match rule.checkOperator with
    | .error e => .error (c.reject (.operatorMismatch e) rfl)
    | .ok () =>
      if active.any fun r => r.id == rule.id then
        .error (c.reject (.shape (.duplicateId rule.id)) rfl)
      else .ok (c.advance .shapeValidated (rule, path) rfl)

/-- Looks for the field in the schema the document shows and in the document. -/
def resolveField (config : Config) (document : Json) (c : Candidate .shapeValidated) :
    Except (Candidate .rejected) (Candidate .fieldResolved) :=
  let (rule, path) : Rule × FieldPath := c.content
  let shown := Schema.infer config document
  if (shown.at? path.segments).isNone then
    .error (c.reject
      (.fieldNotFound ⟨path.text, .schema, suggestion? path.text shown.fieldPaths⟩) rfl)
  else if (document.member? path.segments).isNone then
    .error (c.reject (.fieldNotFound ⟨path.text, .document, none⟩) rfl)
  else .ok (c.advance .fieldResolved rule rfl)

/-- Validates the document with the active rules and the candidate in force. -/
def trial (config : Config) (document : Json) (base : Schema) (active : List Rule)
    (c : Candidate .fieldResolved) : Except (Candidate .rejected) (Candidate .trialValidated) :=
  let rule : Rule := c.content
  match Engine.ofBase base (active ++ [rule]) config with
  | .error f => .error (c.reject (.schemaFault f) rfl)
  | .ok engine =>
    let report := engine.validate document
    if report.isValid then .ok (c.advance .trialValidated rule rfl)
    else .error (c.reject (.conflict rule.id report.issues) rfl)

def commit (c : Candidate .trialValidated) : Candidate .committed :=
  let rule : Rule := c.content
  c.advance .committed { rule with isValid := true } rfl

def rule (c : Candidate .committed) : Rule := c.content

def reason (c : Candidate .rejected) : Rejection := c.content

end Candidate

/-- Takes a proposal through all checks; the first that fails rejects it. -/
def judge (config : Config) (document : Json) (base : Schema) (active : List Rule)
    (fresh : String) (p : Proposal) : Except (Candidate .rejected) (Candidate .committed) := do
  let shaped ← (Candidate.new p).checkShape fresh active
  let resolved ← shaped.resolveField config document
  let tried ← resolved.trial config document base active
  return tried.commit

def admitRule (config : Config) (document : Json) (base : Schema) (active : List Rule)
    (fresh : String) (p : Proposal) : Except Rejection Rule :=
  match judge config document base active fresh p with
  | .ok c => .ok c.rule
  | .error c => .error c.reason

end RuleSchema
